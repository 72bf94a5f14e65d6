import Itex.GraphUtils.Additions
import Itex.Lib.Rewiring
import Itex.Remapper.GradFusion

/-!
Contract: what the fusions of a `BiasAddGrad` do to the edges of the graph.

Owns: what the matchers establish, the edges after a rewrite, and when these have no
cycle and keep the order of the nodes.

Edges are between names: a node feeds another one that has it as a data or control input.
-/

namespace Itex.Remapper

open Itex.Lib (of_guard)

open Itex.Graph (Failure TensorId NodeDef)
open Itex.GraphUtils Itex.GraphUtils.MutableGraphView Itex.Lib RemapperContext Relation

variable {fanouts : List Fanout} {node : NodeDef} {rewritten : Rewritten} {view' : MutableGraphView} {c : Nat}
  {declared : String → List String} {order : HashOrder}

section Applied

variable {ctx : RemapperContext}

/-- Whether `AddNode` takes a node. -/
def Accepted (node : NodeDef) : Prop := ∃ session added : Session, session.addNode node = .ok added

theorem Accepted.addNode (accepted : Accepted node) (session : Session) :
    ∃ added, session.addNode node = .ok added := by
  obtain ⟨other, added, ran⟩ := accepted
  obtain ⟨fanins, isFanins, -⟩ := bind_ok.1 ran
  exact ⟨_, bind_ok.2 ⟨fanins, isFanins, rfl⟩⟩

theorem foldl_addNodeStatus (nodes : List NodeDef) : ∀ (session : Session) (status : Except Failure Unit),
    ∃ news, (nodes.foldl addNodeStatus (session, status)).1 = { session with
        mutation := { session.mutation with newNodes := session.mutation.newNodes ++ news } } ∧
      (∀ new ∈ news, ∃ node ∈ nodes, Accepted node ∧ Session.Parsed node new) ∧
      ∀ node ∈ nodes, Accepted node → ∃ new ∈ news, Session.Parsed node new := by
  induction nodes with
  | nil =>
    intro session status
    exact ⟨[], by simp, by simp, by simp⟩
  | cons head tail ih =>
    intro session status
    rw [List.foldl_cons]
    cases isAdded : session.addNode head with
    | error failure =>
      have isStep : addNodeStatus (session, status) head = (session, .error failure) := by
        simp [addNodeStatus, isAdded]
      obtain ⟨news, isFinal, fromNodes, toNews⟩ := ih session (.error failure)
      rw [isStep]
      refine ⟨news, isFinal, ?_, ?_⟩
      · intro new mem
        obtain ⟨node, nodeMember, facts⟩ := fromNodes new mem
        exact ⟨node, List.mem_cons_of_mem _ nodeMember, facts⟩
      · intro node mem accepted
        rcases List.mem_cons.1 mem with isHead | inTail
        · rw [isHead] at accepted
          obtain ⟨added, ran⟩ := accepted.addNode session
          rw [isAdded] at ran
          cases ran
        · exact toNews node inTail accepted
    | ok added =>
      have isStep : addNodeStatus (session, status) head = (added, .ok ()) := by
        simp [addNodeStatus, isAdded]
      obtain ⟨new, parsed, addedIs⟩ := Session.addNode_appends isAdded
      obtain ⟨news, isFinal, fromNodes, toNews⟩ := ih added (.ok ())
      rw [isStep]
      refine ⟨new :: news, ?_, ?_, ?_⟩
      · rw [isFinal, addedIs]
        simp
      · intro other mem
        rcases List.mem_cons.1 mem with isNew | later
        · rw [isNew]
          exact ⟨head, List.mem_cons_self, ⟨session, added, isAdded⟩, parsed⟩
        · obtain ⟨node, nodeMember, facts⟩ := fromNodes other later
          exact ⟨node, List.mem_cons_of_mem _ nodeMember, facts⟩
      · simp_all

/-- The edges once nodes of the graph are replaced. -/
structure Rewired (view : MutableGraphView) (nodes : List NodeDef) (view' : MutableGraphView) : Prop where
  same : ∀ {first second : NodeDef}, first ∈ nodes → second ∈ nodes → Accepted first → Accepted second →
    first.name = second.name → ∀ input, input ∈ first.input ↔ input ∈ second.input
  feeds : ∀ {a b : String}, view'.Feeds a b ↔
    (∃ node ∈ nodes, Accepted node ∧ node.name = b ∧ ∃ input ∈ node.input, input.node = a) ∨
    ((∀ node ∈ nodes, Accepted node → node.name ≠ b) ∧ view.Feeds a b)

theorem applyNodes_rewired (indexed : ctx.view.Indexed) {nodes : List NodeDef}
    (existing : ∀ node ∈ nodes, ∃ i def_, ctx.view.nodeDef? i = some def_ ∧ def_.name = node.name)
    (ran : ctx.applyNodes order nodes = .ok view') : Rewired ctx.view nodes view' := by
  unfold applyNodes at ran
  obtain ⟨_, -, ran⟩ := bind_ok.1 ran
  obtain ⟨applied, isApplied, ran⟩ := bind_ok.1 ran
  cases ran
  obtain ⟨news, isFinal, fromNodes, toNews⟩ := foldl_addNodeStatus nodes { view := ctx.view } (.ok ())
  rw [isFinal] at isApplied
  have nameOf : ∀ {node : NodeDef} {new : NewNode}, Session.Parsed node new → new.node.name = node.name := by
    intro node new parsed
    rw [parsed.isNode]
  obtain ⟨overwrites, replaced⟩ := Session.apply_additions (by exact indexed) rfl rfl
    (by
      intro new mem
      obtain ⟨node, nodeMember, -, parsed⟩ := fromNodes new (by simpa using mem)
      obtain ⟨i, def_, atI, isName⟩ := existing node nodeMember
      rw [nameOf parsed, ← isName]
      exact AList.lookup_isSome.1 (by rw [(indexed.names def_.name i).2 ⟨def_, atI, rfl⟩]; rfl))
    (by
      intro new mem
      obtain ⟨node, -, -, parsed⟩ := fromNodes new (by simpa using mem)
      exact parsed.full)
    isApplied
  dsimp only at overwrites replaced
  rw [List.nil_append] at overwrites replaced
  refine ⟨?_, ?_⟩
  · intro first second firstMember secondMember firstAccepted secondAccepted sameName input
    obtain ⟨firstNew, inFirst, firstParsed⟩ := toNews first firstMember firstAccepted
    obtain ⟨secondNew, inSecond, secondParsed⟩ := toNews second secondMember secondAccepted
    have isSame := overwrites.eq_of_name inFirst inSecond
      (by rw [nameOf firstParsed, nameOf secondParsed, sameName])
    rw [← firstParsed.inputs order, ← secondParsed.inputs order, isSame]
  · intro a b
    rw [replaced.feeds_iff]
    constructor
    · rintro (⟨-, new, mem, isName, input, inputMember, isA⟩ | ⟨untouched, feeds⟩)
      · obtain ⟨node, nodeMember, accepted, parsed⟩ := fromNodes new mem
        exact .inl ⟨node, nodeMember, accepted, (nameOf parsed).symm.trans isName, input,
          (parsed.inputs order input).1 inputMember, isA⟩
      · grind
    · rintro (⟨node, nodeMember, accepted, isName, input, inputMember, isA⟩ | ⟨untouched, feeds⟩)
      · obtain ⟨new, mem, parsed⟩ := toNews node nodeMember accepted
        obtain ⟨i, def_, atI, isDef⟩ := existing node nodeMember
        exact .inl ⟨⟨i, def_, atI, isDef.trans isName⟩, new, mem, (nameOf parsed).trans isName, input,
          (parsed.inputs order input).2 inputMember, isA⟩
      · grind

end Applied

/-! ## What the matchers establish -/

/-- How many data inputs a gradient contraction has: `MatMul` two, the others three. -/
def dataInputs (contraction : NodeDef) : Nat := if isMatMul contraction then 2 else 3

section Matched

variable {ctx : RemapperContext}

theorem mem_fanouts_iff {i : Nat} {nodeView : MutableNodeView} {fanout : Fanout}
    (atNode : ctx.view.nodes[i]? = some nodeView) :
    fanout ∈ nodeView.regularFanoutsByPort.flatten ↔ ∃ port j, ctx.view.fanout i port j = some fanout := by
  unfold MutableGraphView.fanout
  rw [field_of_getElem? atNode]
  simp only [Option.bind_some]
  constructor
  · intro mem
    obtain ⟨fanouts, inPorts, inFanouts⟩ := List.mem_flatten.1 mem
    obtain ⟨port, atPort⟩ := List.mem_iff_getElem?.1 inPorts
    obtain ⟨j, atJ⟩ := List.mem_iff_getElem?.1 inFanouts
    exact ⟨port, j, by simp [atPort, atJ]⟩
  · intro ⟨port, j, found⟩
    obtain ⟨fanouts, atPort, atJ⟩ := Option.bind_eq_some_iff.1 found
    exact List.mem_flatten.2 ⟨fanouts, List.mem_of_getElem? atPort, List.mem_of_getElem? atJ⟩

theorem mem_biasAddGradOuts {nodeView : MutableNodeView} {i : Nat} : i ∈ biasAddGradOuts nodeView ↔
      ∃ fanout ∈ nodeView.regularFanoutsByPort.flatten, fanout.nodeIndex = i := by
  have general : ∀ (fanouts : List Fanout) (outs : List Nat), i ∈ fanouts.foldl
      (fun outs fanout => if fanout.nodeIndex ∈ outs then outs else outs ++ [fanout.nodeIndex]) outs ↔
        i ∈ outs ∨ ∃ fanout ∈ fanouts, fanout.nodeIndex = i := by
    intro fanouts
    induction fanouts with
    | nil => simp
    | cons head tail ih =>
      grind
  rw [biasAddGradOuts, general]
  simp

section

variable (navigable : ctx.view.Navigable) {b i : Nat} {nodeView : MutableNodeView} {bias def_ : NodeDef}
  (atNode : ctx.view.nodes[b]? = some nodeView) (atBias : ctx.view.nodeDef? b = some bias)
  (uncontrolled : nodeView.controlledFanouts = []) (atI : ctx.view.nodeDef? i = some def_)

include navigable atNode atBias uncontrolled atI

theorem not_controls : (⟨bias.name, .controlSlot⟩ : TensorId) ∉ def_.input := by
  intro mem
  obtain ⟨j, k, atControlled⟩ :=
    navigable.controlled_of_controlledBy ⟨def_, bias, atI, atBias, mem⟩
  rw [controlled, field_of_getElem? atNode, uncontrolled] at atControlled
  cases atControlled

theorem mem_biasAddGradOuts_iff : i ∈ biasAddGradOuts nodeView ↔ ∃ input ∈ def_.input, input.node = bias.name := by
  rw [mem_biasAddGradOuts]
  constructor
  · rintro ⟨fanout, mem, isI⟩
    obtain ⟨port, j, atFanout⟩ := (mem_fanouts_iff atNode).1 mem
    have atFanin := navigable.linked.fanout atFanout
    rw [isI] at atFanin
    obtain ⟨node, atI'⟩ := navigable.indexed.node atI
    rw [MutableGraphView.fanin, field_of_getElem? atI'] at atFanin
    have isInput := input_of_fanin navigable atI' atI atFanin
    exact ⟨_, List.mem_of_getElem? isInput, nameAt_of_nodeDef? atBias⟩
  · rintro ⟨⟨name, index⟩, mem, isBias⟩
    cases index with
    | controlSlot =>
      dsimp only at isBias
      rw [isBias] at mem
      exact absurd mem (not_controls navigable atNode atBias uncontrolled atI)
    | port port =>
      obtain ⟨port, j, k, atFanout⟩ := navigable.fanout_of_reads
        ⟨def_, bias, port, atI, atBias, by rw [← isBias]; exact mem⟩
      exact ⟨⟨i, k⟩, (mem_fanouts_iff atNode).2 ⟨port, j, atFanout⟩, rfl⟩

end

structure Shares (view : MutableGraphView) (matched : ContractionWithBiasAddGrad)
    (contraction biasAddGrad : NodeDef) (dz : TensorId) : Prop where
  atContraction : view.nodeDef? matched.contraction = some contraction
  atBiasAddGrad : view.nodeDef? matched.biasAddGrad = some biasAddGrad
  isBiasAddGrad : isBiasAddGrad biasAddGrad = true
  isContraction : isMatMul contraction = true ∨ isConvBackpropFilter contraction = true
  isDz : biasAddGrad.input[0]? = some dz
  uncontrolled : ∀ input ∈ biasAddGrad.input, input.index ≠ .controlSlot
  regular : ∀ k < dataInputs contraction, ∃ input, contraction.input[k]? = some input ∧ input.index ≠ .controlSlot
  shared : ∀ input, contraction.input[dataInputs contraction - 1]? = some input → input.node = dz.node
  outs : ∀ {i : Nat} {def_ : NodeDef}, view.nodeDef? i = some def_ →
    (i ∈ matched.biasAddGradOuts ↔ ∃ input ∈ def_.input, input.node = biasAddGrad.name)
  controlsNone : ∀ {i : Nat} {def_ : NodeDef}, view.nodeDef? i = some def_ →
    ⟨biasAddGrad.name, .controlSlot⟩ ∉ def_.input

/-- The `BiasAddGrad` with the fanin that it shares. -/
structure BiasSide (view : MutableGraphView) (i : Nat) (nodeView : MutableNodeView) (def_ : NodeDef)
    (fanin : RegularFanin) : Prop where
  atNode : view.nodes[i]? = some nodeView
  atDef : view.nodeDef? i = some def_
  isBiasAddGrad : isBiasAddGrad def_ = true
  noControl : hasControlFaninOrFanout nodeView = false
  atFanin : nodeView.regularFanins[0]? = some fanin

/-- The contraction with the fanin that it shares. -/
structure ContractionSide (view : MutableGraphView) (i dz : Nat) (def_ : NodeDef) : Prop where
  atDef : view.nodeDef? i = some def_
  isContraction : isMatMul def_ = true ∨ isConvBackpropFilter def_ = true
  fanin : ∃ nodeView fanin, view.nodes[i]? = some nodeView ∧
    nodeView.regularFanins[dataInputs def_ - 1]? = some fanin ∧ fanin.nodeIndex = dz

theorem Shares.of_sides (navigable : ctx.view.Navigable) {b : Nat} {nodeView : MutableNodeView}
    {contraction biasAddGrad : NodeDef} {fanin : RegularFanin} (bias : BiasSide ctx.view b nodeView biasAddGrad fanin)
    (side : ContractionSide ctx.view c fanin.nodeIndex contraction) :
    Shares ctx.view ⟨c, b, biasAddGradOuts nodeView⟩ contraction biasAddGrad
      ⟨ctx.view.nameAt fanin.nodeIndex, .port fanin.index⟩ := by
  obtain ⟨contractionView, grad, atContraction, atGrad, isDz⟩ := side.fanin
  have noControl := bias.noControl
  unfold hasControlFaninOrFanout at noControl
  rw [Bool.or_eq_false_iff, decide_eq_false_iff_not, decide_eq_false_iff_not] at noControl
  have noControlling : nodeView.controllingFanins = [] := List.length_eq_zero_iff.1 (by omega)
  have noControlled : nodeView.controlledFanouts = [] := List.length_eq_zero_iff.1 (by omega)
  refine
    { atContraction := side.atDef
      atBiasAddGrad := bias.atDef
      isBiasAddGrad := bias.isBiasAddGrad
      isContraction := side.isContraction
      isDz := input_of_fanin navigable bias.atNode bias.atDef bias.atFanin
      uncontrolled := ?_
      regular := ?_
      shared := ?_
      outs := mem_biasAddGradOuts_iff navigable bias.atNode bias.atDef noControlled
      controlsNone := not_controls navigable bias.atNode bias.atDef noControlled }
  · intro input mem
    rw [navigable.inputs bias.atNode bias.atDef, MutableGraphView.inputsOf, noControlling] at mem
    obtain ⟨other, -, isInput⟩ := List.mem_map.1 (by simpa using mem)
    rw [← isInput]
    intro isControl
    cases isControl
  · intro k less
    have bound := read_lt atGrad
    have atK := List.getElem?_eq_getElem (show k < contractionView.regularFanins.length by omega)
    exact ⟨_, input_of_fanin navigable atContraction side.atDef atK, fun isControl => by cases isControl⟩
  · intro input atInput
    rw [input_of_fanin navigable atContraction side.atDef atGrad] at atInput
    cases atInput
    rw [isDz]

theorem isLegalMatMulGrad_eq_true {i dz : Nat} (ran : ctx.isLegalMatMulGrad i dz = .ok true) :
    ∃ nodeView fanin, ctx.view.nodes[i]? = some nodeView ∧ nodeView.regularFanins[1]? = some fanin ∧
      fanin.nodeIndex = dz := by
  obtain ⟨nodeView, fetched, ran⟩ := bind_ok.1 ran
  obtain ⟨def_, -, ran⟩ := bind_ok.1 ran
  rw [fetch_eq_ok] at fetched
  split at ran
  · cases ran
  next fanin atFanin =>
    split at ran
    · cases ran
    next isDz => exact ⟨nodeView, fanin, fetched, atFanin, not_not.1 isDz⟩

theorem legalMatMulGrad_eq_some {dz : Nat} {matmuls : List Nat}
    (ran : ctx.legalMatMulGrad dz matmuls = .ok (some c)) :
    c ∈ matmuls ∧ ctx.isLegalMatMulGrad c dz = .ok true := by
  induction matmuls with
  | nil => cases ran
  | cons head tail ih =>
    obtain ⟨legal, isLegal, ran⟩ := bind_ok.1 ran
    split at ran
    next found =>
      cases ran
      rw [found] at isLegal
      exact ⟨List.mem_cons_self, isLegal⟩
    next =>
      obtain ⟨mem, isLegal⟩ := ih ran
      exact ⟨List.mem_cons_of_mem _ mem, isLegal⟩

theorem fanoutsWith_mem (indexed : ctx.view.Indexed) {test : NodeDef → Bool} :
    ∀ {found : List Nat}, ctx.fanoutsWith test fanouts = .ok found → ∀ i ∈ found,
      ∃ def_, ctx.view.nodeDef? i = some def_ ∧ test def_ = true := by
  induction fanouts with
  | nil =>
    intro found ran i mem
    cases ran
    cases mem
  | cons head tail ih =>
    intro found ran i mem
    obtain ⟨def_, isDef, ran⟩ := bind_ok.1 ran
    obtain ⟨others, isOthers, ran⟩ := bind_ok.1 ran
    cases ran
    split at mem
    next passes =>
      rcases List.mem_cons.1 mem with isHead | later
      · rw [isHead]
        exact ⟨def_, nodeDefAt_eq_ok indexed isDef, passes⟩
      · exact ih isOthers i later
    next => exact ih isOthers i mem

theorem matMulGradFilter_side (indexed : ctx.view.Indexed) {dz : MutableNodeView}
    (ran : ctx.matMulGradFilter dz = .ok (some c)) : ∃ def_, ContractionSide ctx.view c dz.nodeIndex def_ := by
  have legal : ∀ {matmuls : List Nat}, ctx.fanoutsWith isMatMul dz.regularFanoutsByPort.flatten = .ok matmuls →
      ctx.legalMatMulGrad dz.nodeIndex matmuls = .ok (some c) →
      ∃ def_, ContractionSide ctx.view c dz.nodeIndex def_ := by
    intro matmuls isMatmuls found
    obtain ⟨mem, isLegal⟩ := legalMatMulGrad_eq_some found
    obtain ⟨def_, atDef, isMatmul⟩ := fanoutsWith_mem indexed isMatmuls c mem
    obtain ⟨nodeView, fanin, atNode, atFanin, isDz⟩ := isLegalMatMulGrad_eq_true isLegal
    refine ⟨def_, atDef, .inl isMatmul, nodeView, fanin, atNode, ?_, isDz⟩
    rw [dataInputs, if_pos isMatmul]
    exact atFanin
  unfold matMulGradFilter at ran
  split at ran
  · cases ran
  obtain ⟨matmuls, isMatmuls, ran⟩ := bind_ok.1 ran
  split at ran
  · obtain ⟨-, ran⟩ := of_guard ran
    exact legal isMatmuls ran
  obtain ⟨dzDef, -, ran⟩ := bind_ok.1 ran
  split at ran
  · cases ran
  split at ran
  · cases ran
  obtain ⟨root, -, ran⟩ := bind_ok.1 ran
  split at ran
  · cases ran
  obtain ⟨batchMatMuls, -, ran⟩ := bind_ok.1 ran
  obtain ⟨shapes, -, ran⟩ := bind_ok.1 ran
  split at ran
  · cases ran
  split at ran
  · cases ran
  exact legal isMatmuls ran

theorem not_isMatMul_of_isConvBackpropFilter (isConv : isConvBackpropFilter node = true) :
    isMatMul node = false := by
  unfold isConvBackpropFilter isConv2DBackpropFilter isConv3DBackpropFilterV2 at isConv
  unfold isMatMul
  rw [Bool.or_eq_true, beq_iff_eq, beq_iff_eq] at isConv
  rcases isConv with isOp | isOp <;> rw [isOp] <;> rfl

theorem convGradFilter_side (indexed : ctx.view.Indexed) {dz : Nat}
    (ran : ctx.convGradFilter dz fanouts = .ok (some c)) : ∃ def_, ContractionSide ctx.view c dz def_ := by
  induction fanouts with
  | nil => cases ran
  | cons head tail ih =>
    obtain ⟨nodeView, fetched, ran⟩ := bind_ok.1 ran
    obtain ⟨def_, isDef, ran⟩ := bind_ok.1 ran
    rw [fetch_eq_ok] at fetched
    have isIndex := indexed.nodeIndex fetched
    split at ran
    · exact ih ran
    next isConv =>
      have isConv : isConvBackpropFilter def_ = true := by simpa using isConv
      obtain ⟨grad, atGrad, ran⟩ := bind_ok.1 ran
      rw [fetch_eq_ok] at atGrad
      split at ran
      · exact ih ran
      next isDz =>
        cases ran
        rw [nodeDef_eq_ok] at isDef
        refine ⟨def_, isDef, .inr isConv, nodeView, grad, isIndex ▸ fetched, ?_, not_not.1 isDz⟩
        rw [dataInputs, not_isMatMul_of_isConvBackpropFilter isConv]
        exact atGrad

theorem findContractionWithBiasAddGrad_shares (navigable : ctx.view.Navigable) {i : Nat}
    {matched : ContractionWithBiasAddGrad} (found : ctx.findContractionWithBiasAddGrad i = .ok (some matched)) :
    ∃ contraction biasAddGrad dz, Shares ctx.view matched contraction biasAddGrad dz := by
  obtain ⟨nodeView, fetched, found⟩ := bind_ok.1 found
  rw [fetch_eq_ok] at fetched
  have isIndex := navigable.indexed.nodeIndex fetched
  obtain ⟨noControl, found⟩ := of_guard found
  obtain ⟨def_, isDef, found⟩ := bind_ok.1 found
  rw [nodeDef_eq_ok, isIndex] at isDef
  obtain ⟨isBias, found⟩ := of_guard found
  split at found
  · cases found
  split at found
  · cases found
  split at found
  · cases found
  split at found
  · cases found
  next fanin atFanin =>
    obtain ⟨dz, fetchedDz, found⟩ := bind_ok.1 found
    obtain ⟨filter, isFilter, found⟩ := bind_ok.1 found
    rw [fetch_eq_ok] at fetchedDz
    cases filter with
    | none => cases found
    | some c =>
      cases found
      obtain ⟨contraction, side⟩ := matMulGradFilter_side navigable.indexed isFilter
      rw [navigable.indexed.nodeIndex fetchedDz] at side
      rw [isIndex]
      exact ⟨contraction, def_, _, Shares.of_sides navigable
        ⟨fetched, isDef, by simpa using isBias, by simpa using noControl, atFanin⟩ side⟩

theorem findConvContractionWithBiasAddGrad_shares (navigable : ctx.view.Navigable) {i : Nat}
    {matched : ContractionWithBiasAddGrad} (found : ctx.findConvContractionWithBiasAddGrad i = .ok (some matched)) :
    ∃ contraction biasAddGrad dz, Shares ctx.view matched contraction biasAddGrad dz := by
  obtain ⟨nodeView, fetched, found⟩ := bind_ok.1 found
  rw [fetch_eq_ok] at fetched
  have isIndex := navigable.indexed.nodeIndex fetched
  obtain ⟨noControl, found⟩ := of_guard found
  obtain ⟨def_, isDef, found⟩ := bind_ok.1 found
  rw [nodeDef_eq_ok, isIndex] at isDef
  obtain ⟨isBias, found⟩ := of_guard found
  split at found
  · cases found
  split at found
  · cases found
  next fanin atFanin =>
    obtain ⟨dz, fetchedDz, found⟩ := bind_ok.1 found
    rw [fetch_eq_ok] at fetchedDz
    split at found
    · cases found
    next port isPort =>
      obtain ⟨filter, isFilter, found⟩ := bind_ok.1 found
      cases filter with
      | none => cases found
      | some c =>
        cases found
        obtain ⟨contraction, side⟩ := convGradFilter_side navigable.indexed isFilter
        rw [navigable.indexed.nodeIndex fetchedDz] at side
        rw [isIndex]
        exact ⟨contraction, def_, _, Shares.of_sides navigable
          ⟨fetched, isDef, by simpa using isBias, by simpa using noControl, atFanin⟩ side⟩

end Matched

section Fused

variable {ctx : RemapperContext} {matched : ContractionWithBiasAddGrad} {contraction biasAddGrad : NodeDef}
  {dz : TensorId}

def DataInput (contraction : NodeDef) (name : String) : Prop :=
  ∃ input ∈ contraction.input.take (dataInputs contraction), input.node = name

def ReadsOutput (view : MutableGraphView) (biasAddGrad name : String) : Prop :=
  ∃ i def_, view.nodeDef? i = some def_ ∧ def_.name = name ∧ ⟨biasAddGrad, .port 0⟩ ∈ def_.input

theorem Shares.different (indexed : ctx.view.Indexed)
    (shares : Shares ctx.view matched contraction biasAddGrad dz) : biasAddGrad.name ≠ contraction.name := by
  intro sameName
  have sameIndex := indexed.eq_of_name shares.atBiasAddGrad shares.atContraction sameName
  have isSame := shares.atBiasAddGrad
  rw [sameIndex, shares.atContraction] at isSame
  cases isSame
  have isBias := shares.isBiasAddGrad
  have isOther := shares.isContraction
  unfold Remapper.isBiasAddGrad at isBias
  unfold isMatMul isConvBackpropFilter isConv2DBackpropFilter isConv3DBackpropFilterV2 at isOther
  rw [beq_iff_eq] at isBias
  rw [isBias] at isOther
  revert isOther
  decide

theorem fusedContractionGrad_inputs (shares : Shares ctx.view matched contraction biasAddGrad dz)
    {fused : NodeDef}
    (ran : fusedContractionGrad declared contraction biasAddGrad = .ok fused) :
    fused.name = contraction.name ∧ (∀ input ∈ fused.input, input.index ≠ .controlSlot) ∧
      ∀ name, (∃ input ∈ fused.input, input.node = name) ↔ DataInput contraction name := by
  obtain ⟨first, isFirst, ran⟩ := bind_ok.1 ran
  obtain ⟨second, isSecond, ran⟩ := bind_ok.1 ran
  obtain ⟨grad, isGrad, ran⟩ := bind_ok.1 ran
  rw [fetch_eq_ok] at isFirst isSecond isGrad
  rw [shares.isDz] at isGrad
  cases isGrad
  have dzRegular := shares.uncontrolled dz (List.mem_of_getElem? shares.isDz)
  have regular := shares.regular
  have shared := shares.shared
  unfold DataInput
  generalize contraction.input = inputs at isFirst isSecond regular shared ⊢
  split at ran
  next isMatmul =>
    rw [dataInputs, if_pos isMatmul] at regular shared ⊢
    have isShared : second.node = dz.node := shared second isSecond
    obtain ⟨firstInput, atFirst, firstRegular⟩ := regular 0 (by omega)
    obtain ⟨secondInput, atSecond, secondRegular⟩ := regular 1 (by omega)
    rw [isFirst] at atFirst
    rw [isSecond] at atSecond
    cases atFirst
    cases atSecond
    have taken : inputs.take 2 = [first, second] := by
      rw [List.take_add_one, List.take_add_one, isFirst, isSecond]
      rfl
    obtain ⟨transposeA, -, ran⟩ := bind_ok.1 ran
    obtain ⟨transposeB, -, ran⟩ := bind_ok.1 ran
    obtain ⟨type, -, ran⟩ := bind_ok.1 ran
    split at ran
    next isSame =>
      cases ran
      refine ⟨rfl, ?_, ?_⟩
      · simp [secondRegular, dzRegular]
      · intro name
        rw [taken, isSame]
        simp [or_comm]
    next =>
      cases ran
      refine ⟨rfl, ?_, ?_⟩
      · simp [firstRegular, dzRegular]
      · intro name
        rw [taken]
        simp [isShared]
  next notMatmul =>
    obtain ⟨_, -, ran⟩ := bind_ok.1 ran
    cases ran
    rw [dataInputs, if_neg notMatmul] at regular shared ⊢
    obtain ⟨firstInput, atFirst, firstRegular⟩ := regular 0 (by omega)
    obtain ⟨secondInput, atSecond, secondRegular⟩ := regular 1 (by omega)
    obtain ⟨third, atThird, -⟩ := regular 2 (by omega)
    rw [isFirst] at atFirst
    rw [isSecond] at atSecond
    cases atFirst
    cases atSecond
    have isShared : third.node = dz.node := shared third atThird
    have taken : inputs.take 3 = [first, second, third] := by
      rw [List.take_add_one, List.take_add_one, List.take_add_one, isFirst, isSecond, atThird]
      rfl
    refine ⟨rfl, ?_, ?_⟩
    · simp [firstRegular, secondRegular, dzRegular]
    · intro name
      rw [taken]
      simp [isShared]

theorem inputs_ordered (navigable : ctx.view.Navigable) {i : Nat} {def_ : NodeDef}
    (atI : ctx.view.nodeDef? i = some def_) :
    def_.input.Pairwise fun first second => first.index = .controlSlot → second.index = .controlSlot := by
  obtain ⟨node, atNode⟩ := navigable.indexed.node atI
  rw [navigable.inputs atNode atI, MutableGraphView.inputsOf, List.pairwise_append]
  refine ⟨?_, ?_, ?_⟩
  · rw [List.pairwise_map]
    exact List.pairwise_of_forall fun _ _ isControl => by cases isControl
  · rw [List.pairwise_map]
    exact List.pairwise_of_forall fun _ _ _ => rfl
  · intro first _ second controlling _
    obtain ⟨fanin, -, isInput⟩ := List.mem_map.1 controlling
    rw [← isInput]

theorem redirectInput_index {contraction biasAddGrad : String} {input : TensorId} :
    (redirectInput contraction biasAddGrad input).index = .controlSlot ↔ input.index = .controlSlot := by
  unfold redirectInput
  split
  next isInput => simp [isInput]
  next => rfl

theorem redirectedConsumer_accepted (navigable : ctx.view.Navigable) (acyclic : Acyclic ctx.view.Feeds)
    {declared : String → List String} {i : Nat} {def_ : NodeDef} {contraction biasAddGrad : String}
    (atI : ctx.view.nodeDef? i = some def_) (different : def_.name ≠ contraction) :
    Accepted (redirectedConsumer declared contraction biasAddGrad def_) := by
  refine ⟨{ view := ctx.view }, Session.addNode_returns ?_ ?_⟩
  · refine List.pairwise_map.2 ((inputs_ordered navigable atI).imp ?_)
    intro first second ordered
    rw [redirectInput_index, redirectInput_index]
    exact ordered
  · intro input mem
    obtain ⟨old, oldMember, isInput⟩ := List.mem_map.1 mem
    rw [← isInput]
    unfold redirectInput
    split
    · exact different.symm
    · intro isSelf
      exact acyclic def_.name (.single ((navigable.indexed.feeds_iff atI).2 ⟨old, oldMember, isSelf⟩))

/-- The nodes that `AddFusedContractionGradNode` replaces, and the edges they bring. -/
structure FusedEdges (view : MutableGraphView) (contraction biasAddGrad : NodeDef)
    (view' : MutableGraphView) : Prop where
  into : ∀ {name : String}, view'.Feeds name contraction.name ↔ DataInput contraction name
  others : ∀ {i : Nat} {def_ : NodeDef} {name : String}, view.nodeDef? i = some def_ →
    def_.name ≠ contraction.name → (view'.Feeds name def_.name ↔
      ∃ input ∈ def_.input, (redirectInput contraction.name biasAddGrad.name input).node = name)
  nodes : ∀ {name other : String}, view'.Feeds name other → ∃ i def_, view.nodeDef? i = some def_ ∧ def_.name = other

theorem feeds_of_dataInput (indexed : ctx.view.Indexed)
    (shares : Shares ctx.view matched contraction biasAddGrad dz) {name : String}
    (isData : DataInput contraction name) : ctx.view.Feeds name contraction.name := by
  obtain ⟨input, mem, isName⟩ := isData
  exact (indexed.feeds_iff shares.atContraction).2 ⟨input, List.mem_of_mem_take mem, isName⟩

theorem addFusedContractionGradNode_edges (navigable : ctx.view.Navigable)
    (acyclic : Acyclic ctx.view.Feeds) (shares : Shares ctx.view matched contraction biasAddGrad dz)
    (ran : ctx.addFusedContractionGradNode declared order matched = .ok rewritten) :
    FusedEdges ctx.view contraction biasAddGrad rewritten.view := by
  obtain ⟨storedContraction, isContraction, ran⟩ := bind_ok.1 ran
  obtain ⟨storedBias, isBias, ran⟩ := bind_ok.1 ran
  rw [fetch_eq_ok] at isContraction isBias
  have contractionIs : storedContraction.nodeDef = contraction := by
    have atContraction := shares.atContraction
    rw [MutableGraphView.nodeDef?, isContraction] at atContraction
    exact Option.some.inj atContraction
  have biasIs : storedBias.nodeDef = biasAddGrad := by
    have atBias := shares.atBiasAddGrad
    rw [MutableGraphView.nodeDef?, isBias] at atBias
    exact Option.some.inj atBias
  rw [contractionIs, biasIs] at ran
  obtain ⟨plain, isPlain, ran⟩ := bind_ok.1 ran
  obtain ⟨outs, isOuts, ran⟩ := bind_ok.1 ran
  obtain ⟨view', isView, ran⟩ := bind_ok.1 ran
  cases ran
  obtain ⟨plainName, plainRegular, plainInputs⟩ := fusedContractionGrad_inputs shares isPlain
  generalize isFused : ({ plain with
    attr := addNodeAttr plain.attr "fused_ops" (.strings ["BiasAddGrad"]) } : NodeDef) = fused at isView
  have fusedName : fused.name = contraction.name := by rw [← isFused]; exact plainName
  have fusedInput : fused.input = plain.input := by rw [← isFused]
  have mem_outs : ∀ {node : NodeDef}, node ∈ outs ↔ ∃ i def_, ctx.view.nodeDef? i = some def_ ∧
      (∃ input ∈ def_.input, input.node = biasAddGrad.name) ∧
      node = redirectedConsumer declared contraction.name biasAddGrad.name def_ := by
    intro node
    constructor
    · intro mem
      obtain ⟨i, inOuts, isNode⟩ := mem_source_of_mapM isOuts mem
      obtain ⟨stored, fetched, isNode⟩ := bind_ok.1 isNode
      rw [fetch_eq_ok] at fetched
      cases isNode
      have atI : ctx.view.nodeDef? i = some stored.nodeDef := by
        rw [MutableGraphView.nodeDef?, fetched]
        rfl
      exact ⟨i, stored.nodeDef, atI, (shares.outs atI).1 inOuts, rfl⟩
    · rintro ⟨i, def_, atI, reads, isNode⟩
      obtain ⟨other, mem, isOther⟩ := mem_result_of_mapM isOuts ((shares.outs atI).2 reads)
      obtain ⟨stored, fetched, isOther⟩ := bind_ok.1 isOther
      rw [fetch_eq_ok] at fetched
      rw [MutableGraphView.nodeDef?, fetched] at atI
      cases atI
      cases isOther
      rw [isNode]
      exact mem
  have rewired : Rewired ctx.view (fused :: outs) view' := by
    apply applyNodes_rewired navigable.indexed _ isView
    intro node mem
    rcases List.mem_cons.1 mem with rfl | inOuts
    · exact ⟨_, contraction, shares.atContraction, fusedName.symm⟩
    · obtain ⟨i, def_, atI, -, isNode⟩ := mem_outs.1 inOuts
      exact ⟨i, def_, atI, by rw [isNode]; rfl⟩
  have fusedAccepted : Accepted fused := by
    refine ⟨{ view := ctx.view }, Session.addNode_returns ?_ ?_⟩
    · rw [fusedInput]
      apply List.pairwise_of_forall_mem_list
      intro first firstMember _ _ isControl
      exact absurd isControl (plainRegular first firstMember)
    · intro input mem isSelf
      rw [fusedInput] at mem
      rw [fusedName] at isSelf
      have isData := (plainInputs contraction.name).1 ⟨input, mem, isSelf⟩
      exact acyclic contraction.name (.single (feeds_of_dataInput navigable.indexed shares isData))
  refine ⟨?_, ?_, ?_⟩
  · intro name
    rw [rewired.feeds, ← plainInputs, ← fusedInput]
    constructor
    · rintro (⟨node, mem, accepted, isName, input, inputMember, isInput⟩ | ⟨untouched, -⟩)
      · refine ⟨input, ?_, isInput⟩
        exact (rewired.same mem List.mem_cons_self accepted fusedAccepted
          (isName.trans fusedName.symm) input).1 inputMember
      · exact absurd fusedName (untouched fused List.mem_cons_self fusedAccepted)
    · intro input
      exact .inl ⟨fused, List.mem_cons_self, fusedAccepted, fusedName, input⟩
  · intro i def_ name atI different
    rw [rewired.feeds]
    by_cases reads : ∃ input ∈ def_.input, input.node = biasAddGrad.name
    · -- A consumer was rebuilt.
      have mem := List.mem_cons_of_mem fused (mem_outs.2 ⟨i, def_, atI, reads, rfl⟩)
      have accepted := @redirectedConsumer_accepted ctx navigable acyclic declared i def_
        contraction.name biasAddGrad.name atI different
      constructor
      · rintro (⟨node, nodeMember, nodeAccepted, isName, input, inputMember, isInput⟩ | ⟨untouched, -⟩)
        · have inConsumer := (rewired.same nodeMember mem nodeAccepted accepted isName input).1 inputMember
          obtain ⟨old, oldMember, isOld⟩ := List.mem_map.1 inConsumer
          exact ⟨old, oldMember, by rw [isOld]; exact isInput⟩
        · exact (untouched _ mem accepted rfl).elim
      · rintro ⟨input, inputMember, isInput⟩
        exact .inl ⟨_, mem, accepted, rfl, _, List.mem_map_of_mem inputMember, isInput⟩
    · -- Every other node stays.
      have untouched : ∀ node ∈ fused :: outs, Accepted node → node.name ≠ def_.name := by
        intro node mem _ isName
        rcases List.mem_cons.1 mem with isFusedNode | inOuts
        · rw [isFusedNode, fusedName] at isName
          exact different isName.symm
        · obtain ⟨j, other, atJ, otherReads, isNode⟩ := mem_outs.1 inOuts
          rw [isNode] at isName
          have sameIndex := navigable.indexed.eq_of_name atJ atI isName
          rw [sameIndex, atI] at atJ
          cases atJ
          exact reads otherReads
      have unchanged : ∀ input ∈ def_.input, redirectInput contraction.name biasAddGrad.name input = input := by
        intro input mem
        unfold redirectInput
        split
        next isInput => exact absurd ⟨input, mem, by rw [isInput]⟩ reads
        next => rfl
      constructor
      · rintro (⟨node, mem, accepted, isName, -⟩ | ⟨-, feeds⟩)
        · exact absurd isName (untouched node mem accepted)
        · obtain ⟨input, mem, isInput⟩ := (navigable.indexed.feeds_iff atI).1 feeds
          exact ⟨input, mem, by rw [unchanged input mem]; exact isInput⟩
      · rintro ⟨input, mem, isInput⟩
        rw [unchanged input mem] at isInput
        exact .inr ⟨untouched, (navigable.indexed.feeds_iff atI).2 ⟨input, mem, isInput⟩⟩
  · intro name other feeds
    rcases rewired.feeds.1 feeds with ⟨node, mem, -, isName, -⟩ | ⟨-, i, def_, atI, isName, -⟩
    · rcases List.mem_cons.1 mem with isFusedNode | inOuts
      · exact ⟨_, contraction, shares.atContraction, by rw [← isName, isFusedNode, fusedName]⟩
      · obtain ⟨i, def_, atI, -, isNode⟩ := mem_outs.1 inOuts
        exact ⟨i, def_, atI, by rw [← isName, isNode]; rfl⟩
    · exact ⟨i, def_, atI, isName⟩

theorem FusedEdges.absorbs (indexed : ctx.view.Indexed)
    (shares : Shares ctx.view matched contraction biasAddGrad dz)
    (edges : FusedEdges ctx.view contraction biasAddGrad view') :
    Absorbs ctx.view.Feeds biasAddGrad.name contraction.name (DataInput contraction)
      (fun name => name ≠ contraction.name ∧ ∃ i def_, ctx.view.nodeDef? i = some def_ ∧ def_.name = name ∧
        ∃ input ∈ def_.input, input.node = biasAddGrad.name ∧ input ≠ ⟨biasAddGrad.name, .port 0⟩)
      (fun name => name ≠ contraction.name ∧ ReadsOutput ctx.view biasAddGrad.name name) view'.Feeds := by
  refine
    { different := shares.different indexed
      subset := feeds_of_dataInput indexed shares
      into := edges.into
      others := ?_
      outgoing := ?_
      elsewhere := ?_ }
  · intro u v notMerged
    constructor
    · intro feeds
      obtain ⟨i, def_, atI, isV⟩ := edges.nodes feeds
      rw [← isV] at feeds notMerged ⊢
      obtain ⟨input, mem, isU⟩ := (edges.others atI notMerged).1 feeds
      by_cases isOutput : input = ⟨biasAddGrad.name, .port 0⟩
      · rw [redirectInput, if_pos isOutput] at isU
        rw [isOutput] at mem
        exact .inr (.inr ⟨isU.symm, notMerged, i, def_, atI, rfl, mem⟩)
      · rw [redirectInput, if_neg isOutput] at isU
        by_cases isAbsorbed : u = biasAddGrad.name
        · rw [isAbsorbed] at isU
          exact .inr (.inl ⟨isAbsorbed, notMerged, i, def_, atI, rfl, input, mem, isU, isOutput⟩)
        · exact .inl ⟨isAbsorbed, (indexed.feeds_iff atI).2 ⟨input, mem, isU⟩⟩
    · rintro (⟨notAbsorbed, i, def_, atI, isV, input, mem, isU⟩ |
        ⟨isAbsorbed, -, i, def_, atI, isV, input, mem, isBias, notOutput⟩ |
        ⟨isMerged, -, i, def_, atI, isV, mem⟩)
      · rw [← isV] at notMerged ⊢
        refine (edges.others atI notMerged).2 ⟨input, mem, ?_⟩
        have notOutput : input ≠ ⟨biasAddGrad.name, .port 0⟩ := by
          intro isOutput
          rw [isOutput] at isU
          exact notAbsorbed isU.symm
        rw [redirectInput, if_neg notOutput]
        exact isU
      · rw [← isV] at notMerged ⊢
        refine (edges.others atI notMerged).2 ⟨input, mem, ?_⟩
        rw [redirectInput, if_neg notOutput, isAbsorbed]
        exact isBias
      · rw [← isV] at notMerged ⊢
        refine (edges.others atI notMerged).2 ⟨_, mem, ?_⟩
        rw [redirectInput, if_pos rfl]
        exact isMerged.symm
  · intro v notMerged
    constructor
    · intro ⟨i, def_, atI, isV, input, mem, isBias⟩
      by_cases isOutput : input = ⟨biasAddGrad.name, .port 0⟩
      · rw [isOutput] at mem
        exact .inr ⟨notMerged, i, def_, atI, isV, mem⟩
      · exact .inl ⟨notMerged, i, def_, atI, isV, input, mem, isBias, isOutput⟩
    · rintro (⟨-, i, def_, atI, isV, input, mem, isBias, -⟩ | ⟨-, i, def_, atI, isV, mem⟩)
      · exact ⟨i, def_, atI, isV, input, mem, isBias⟩
      · exact ⟨i, def_, atI, isV, _, mem, rfl⟩
  · rintro v (⟨notMerged, -⟩ | ⟨notMerged, -⟩)
    · exact notMerged
    · exact notMerged

end Fused

section Moved

variable {ctx : RemapperContext} {matched : ContractionWithReshapeAndBiasAddGrad}

theorem findContractionWithReshapeAndBiasAddGrad_nodes {i : Nat}
    (found : ctx.findContractionWithReshapeAndBiasAddGrad i = .ok (some matched)) :
    ∃ reshape biasaddgrad, ctx.view.nodeDef? matched.reshape = some reshape ∧ isReshape reshape = true ∧
      ctx.view.nodeDef? matched.biasaddgrad = some biasaddgrad ∧ isBiasAddGrad biasaddgrad = true := by
  obtain ⟨nodeView, -, found⟩ := bind_ok.1 found
  obtain ⟨biasaddgrad, isBias, found⟩ := bind_ok.1 found
  rw [nodeDef_eq_ok] at isBias
  obtain ⟨tests, found⟩ := of_guard found
  obtain ⟨rootFanin, -, found⟩ := bind_ok.1 found
  obtain ⟨rootView, -, found⟩ := bind_ok.1 found
  obtain ⟨root, -, found⟩ := bind_ok.1 found
  split at found
  · cases found
  split at found
  · cases found
  split at found
  · cases found
  obtain ⟨first, -, found⟩ := bind_ok.1 found
  obtain ⟨firstDef, -, found⟩ := bind_ok.1 found
  obtain ⟨reshapeFanout, -, found⟩ := bind_ok.1 found
  obtain ⟨reshapeView, -, found⟩ := bind_ok.1 found
  obtain ⟨reshape, atReshape, found⟩ := bind_ok.1 found
  rw [nodeDef_eq_ok] at atReshape
  obtain ⟨reshapes, found⟩ := of_guard found
  obtain ⟨patterns, -, found⟩ := bind_ok.1 found
  split at found
  · cases found
  obtain ⟨dataFormat, -, found⟩ := bind_ok.1 found
  split at found
  · cases found
  obtain ⟨biasProps, -, found⟩ := bind_ok.1 found
  obtain ⟨reshapeProps, -, found⟩ := bind_ok.1 found
  obtain ⟨biasInput, -, found⟩ := bind_ok.1 found
  obtain ⟨reshapeOutput, -, found⟩ := bind_ok.1 found
  obtain ⟨same, -, found⟩ := bind_ok.1 found
  have isMatched := Except.ok.inj found
  split at isMatched
  · cases isMatched
    simp only [Bool.or_eq_true, Bool.not_eq_true', not_or, Bool.not_eq_false] at tests
    exact ⟨reshape, biasaddgrad, atReshape, by simpa using reshapes, isBias, tests.1.1.1⟩
  · cases isMatched

theorem addContractionWithReshapeAndBiasAddGrad_rehangs (indexed : ctx.view.Indexed)
    {reshape biasaddgrad : NodeDef} (atReshape : ctx.view.nodeDef? matched.reshape = some reshape)
    (atBias : ctx.view.nodeDef? matched.biasaddgrad = some biasaddgrad)
    (different : reshape.name ≠ biasaddgrad.name)
    (ran : ctx.addContractionWithReshapeAndBiasAddGrad declared order matched = .ok rewritten) :
    Rehangs ctx.view.Feeds biasaddgrad.name reshape.name rewritten.view.Feeds := by
  obtain ⟨storedReshape, isReshape, ran⟩ := bind_ok.1 ran
  obtain ⟨storedBias, isBias, ran⟩ := bind_ok.1 ran
  rw [fetch_eq_ok] at isReshape isBias
  rw [MutableGraphView.nodeDef?, isReshape] at atReshape
  have atBiasDef := atBias
  rw [MutableGraphView.nodeDef?, isBias] at atBiasDef
  cases atReshape
  cases atBiasDef
  obtain ⟨view', isView, ran⟩ := bind_ok.1 ran
  cases ran
  generalize isMoved : ({
    name := storedBias.nodeDef.name
    op := kBiasAddGrad
    device := storedBias.nodeDef.device
    input := [⟨storedReshape.nodeDef.name, .port 0⟩]
    attr := copyAllAttrs (declared kBiasAddGrad) storedBias.nodeDef } : NodeDef) = moved at isView
  have movedName : moved.name = storedBias.nodeDef.name := by rw [← isMoved]
  have movedInput : moved.input = [⟨storedReshape.nodeDef.name, .port 0⟩] := by rw [← isMoved]
  have rewired : Rewired ctx.view [moved] view' := by
    apply applyNodes_rewired indexed _ isView
    intro node mem
    rw [List.mem_singleton.1 mem]
    exact ⟨_, _, atBias, movedName.symm⟩
  have accepted : Accepted moved := by
    refine ⟨{ view := ctx.view }, Session.addNode_returns ?_ ?_⟩
    · rw [movedInput]
      exact List.pairwise_singleton _ _
    · intro input mem
      rw [movedInput] at mem
      rw [List.mem_singleton.1 mem, movedName]
      exact different
  refine ⟨?_, ?_⟩
  · intro u
    rw [rewired.feeds]
    constructor
    · simp_all
    · intro isU
      exact .inl ⟨moved, List.mem_cons_self, accepted, movedName, _,
        by rw [movedInput]; exact List.mem_cons_self, isU.symm⟩
  · intro u v notMoved
    rw [rewired.feeds]
    grind

end Moved

end Itex.Remapper
