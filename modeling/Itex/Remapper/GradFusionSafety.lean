import Itex.GraphUtils.SortPending
import Itex.Remapper.GradFusionOrder

/-!
Contract: what the fusions of a `BiasAddGrad` keep of the graph.

Owns: when they leave it without cycles, when they keep the order of its nodes, and
graphs for both outcomes.
-/

namespace Itex.Remapper

open Itex.Graph (TensorId AttrMap NodeDef GraphDef)
open Itex.GraphUtils Itex.GraphUtils.MutableGraphView Itex.Lib RemapperContext Relation

section Safety

variable {ctx : RemapperContext}

def FindsContraction (ctx : RemapperContext) (i : Nat) (matched : ContractionWithBiasAddGrad) : Prop :=
  ctx.findContractionWithBiasAddGrad i = .ok (some matched) ∨
    ctx.findConvContractionWithBiasAddGrad i = .ok (some matched)

theorem FindsContraction.shares (navigable : ctx.view.Navigable) {i : Nat}
    {matched : ContractionWithBiasAddGrad} (found : FindsContraction ctx i matched) {contraction biasAddGrad : NodeDef}
    (atContraction : ctx.view.nodeDef? matched.contraction = some contraction)
    (atBiasAddGrad : ctx.view.nodeDef? matched.biasAddGrad = some biasAddGrad) :
    ∃ dz, Shares ctx.view matched contraction biasAddGrad dz := by
  obtain ⟨foundContraction, foundBias, dz, shares⟩ :
      ∃ contraction biasAddGrad dz, Shares ctx.view matched contraction biasAddGrad dz := by
    rcases found with found | found
    · exact findContractionWithBiasAddGrad_shares navigable found
    · exact findConvContractionWithBiasAddGrad_shares navigable found
  have sameContraction := shares.atContraction
  have sameBias := shares.atBiasAddGrad
  rw [atContraction] at sameContraction
  rw [atBiasAddGrad] at sameBias
  cases sameContraction
  cases sameBias
  exact ⟨dz, shares⟩

/-- Merging a `BiasAddGrad` into a contraction leaves no cycle exactly if no reader of
its output is, or leads to, a data input of the contraction; moving it behind a `Reshape`
leaves none exactly if it does not lead to the `Reshape`. -/
theorem gradFusions_acyclic_iff (navigable : ctx.view.Navigable) (acyclic : Acyclic ctx.view.Feeds)
    {i : Nat} {declared : String → List String} {order : HashOrder} {rewritten : Rewritten} {biasAddGrad : NodeDef} :
    (∀ {matched : ContractionWithBiasAddGrad} {contraction : NodeDef}, FindsContraction ctx i matched →
      ctx.view.nodeDef? matched.contraction = some contraction →
      ctx.view.nodeDef? matched.biasAddGrad = some biasAddGrad →
      ctx.addFusedContractionGradNode declared order matched = .ok rewritten →
      (Acyclic rewritten.view.Feeds ↔ ∀ reader data, ReadsOutput ctx.view biasAddGrad.name reader →
        DataInput contraction data → ¬ ReflTransGen ctx.view.Feeds reader data)) ∧
    ∀ {matched : ContractionWithReshapeAndBiasAddGrad} {reshape : NodeDef},
      ctx.findContractionWithReshapeAndBiasAddGrad i = .ok (some matched) →
      ctx.view.nodeDef? matched.reshape = some reshape → ctx.view.nodeDef? matched.biasaddgrad = some biasAddGrad →
      ctx.addContractionWithReshapeAndBiasAddGrad declared order matched = .ok rewritten →
      (Acyclic rewritten.view.Feeds ↔ ¬ ReflTransGen ctx.view.Feeds biasAddGrad.name reshape.name) := by
  constructor
  · intro matched contraction found atContraction atBias returned
    obtain ⟨dz, shares⟩ := found.shares navigable atContraction atBias
    have edges := addFusedContractionGradNode_edges navigable acyclic shares returned
    rw [(edges.absorbs navigable.indexed shares).acyclic_iff acyclic]
    constructor
    · intro apart reader data reads isData path
      -- The contraction itself leads to none of its inputs.
      by_cases isContraction : reader = contraction.name
      · rw [isContraction] at path
        exact acyclic.not_back (feeds_of_dataInput navigable.indexed shares isData) path
      · exact apart reader data ⟨isContraction, reads⟩ isData path
    · intro apart reader data moved isData
      exact apart reader data moved.2 isData
  · intro matched reshape found atReshape atBias returned
    obtain ⟨foundReshape, foundBias, foundAt, isReshape, foundBiasAt, isBias⟩ :=
      findContractionWithReshapeAndBiasAddGrad_nodes found
    rw [atReshape] at foundAt
    rw [atBias] at foundBiasAt
    cases foundAt
    cases foundBiasAt
    have different : reshape.name ≠ biasAddGrad.name := by
      intro sameName
      have sameIndex := navigable.indexed.eq_of_name atReshape atBias sameName
      rw [sameIndex, atBias] at atReshape
      cases atReshape
      unfold isBiasAddGrad at isBias
      unfold Remapper.isReshape at isReshape
      rw [beq_iff_eq] at isBias isReshape
      rw [isBias] at isReshape
      revert isReshape
      decide
    exact (addContractionWithReshapeAndBiasAddGrad_rehangs navigable.indexed atReshape atBias different
      returned).acyclic_iff acyclic

/-- What the op registry says of a `BiasAddGrad`: one input, one output. -/
structure OneInputOneOutput (view : MutableGraphView) (biasAddGrad : NodeDef) : Prop where
  input : (biasAddGrad.input.filter fun input => input.index ≠ .controlSlot).length = 1
  output : ∀ {i : Nat} {def_ : NodeDef} {port : Nat}, view.nodeDef? i = some def_ →
    ⟨biasAddGrad.name, .port port⟩ ∈ def_.input → port = 0

/-- Merging a `BiasAddGrad` into a contraction keeps the order of the other nodes exactly
if each input of the contraction is, or leads to, one of its data inputs. -/
theorem addFusedContractionGradNode_keepsOrder_iff (navigable : ctx.view.Navigable)
    (acyclic : Acyclic ctx.view.Feeds) {i : Nat} {declared : String → List String} {order : HashOrder}
    {matched : ContractionWithBiasAddGrad} {contraction biasAddGrad : NodeDef} {rewritten : Rewritten}
    (found : FindsContraction ctx i matched) (atContraction : ctx.view.nodeDef? matched.contraction = some contraction)
    (atBiasAddGrad : ctx.view.nodeDef? matched.biasAddGrad = some biasAddGrad)
    (registered : OneInputOneOutput ctx.view biasAddGrad)
    (returned : ctx.addFusedContractionGradNode declared order matched = .ok rewritten) :
    (∀ u v, u ≠ biasAddGrad.name → v ≠ biasAddGrad.name → TransGen ctx.view.Feeds u v →
      TransGen (Without biasAddGrad.name rewritten.view.Feeds) u v) ↔
    ∀ input ∈ contraction.input, input.node ≠ biasAddGrad.name →
      ∃ data, DataInput contraction data ∧ ReflTransGen ctx.view.Feeds input.node data := by
  obtain ⟨dz, shares⟩ := found.shares navigable atContraction atBiasAddGrad
  have edges := addFusedContractionGradNode_edges navigable acyclic shares returned
  have onlyInput : biasAddGrad.input = [dz] := by
    have uncontrolled : biasAddGrad.input.filter (fun input => input.index ≠ .controlSlot) = biasAddGrad.input := by
      apply List.filter_eq_self.2
      intro input member
      exact decide_eq_true (shares.uncontrolled input member)
    have length := registered.input
    rw [uncontrolled, List.length_eq_one_iff] at length
    obtain ⟨input, isInput⟩ := length
    have isDz := shares.isDz
    rw [isInput] at isDz ⊢
    cases isDz
    rfl
  have only : ∀ {u : String}, ctx.view.Feeds u biasAddGrad.name ↔ u = dz.node := by
    intro u
    rw [navigable.indexed.feeds_iff atBiasAddGrad, onlyInput]
    simp [eq_comm]
  have isShared : DataInput contraction dz.node := by
    obtain ⟨input, atInput, -⟩ := shares.regular (dataInputs contraction - 1) (by unfold dataInputs; split <;> omega)
    refine ⟨input, List.mem_of_getElem? (i := dataInputs contraction - 1) ?_, shares.shared input atInput⟩
    rw [List.getElem?_take_of_lt (by unfold dataInputs; split <;> omega)]
    exact atInput
  rw [(edges.absorbs navigable.indexed shares).keepsOrder_iff acyclic only isShared]
  · constructor
    · intro covered input member notBias
      exact covered input.node notBias ((navigable.indexed.feeds_iff atContraction).2 ⟨input, member, rfl⟩)
    · intro covered u notBias feeds
      obtain ⟨input, member, isU⟩ := (navigable.indexed.feeds_iff atContraction).1 feeds
      rw [← isU] at notBias ⊢
      exact covered input member notBias
  · rintro name ⟨-, j, def_, atJ, -, ⟨_, index⟩, member, isBias, notOutput⟩
    dsimp only at isBias
    rw [isBias] at member notOutput
    cases index with
    | controlSlot => exact shares.controlsNone atJ member
    | port port =>
      have isZero := registered.output atJ member
      rw [isZero] at notOutput
      exact notOutput rfl

end Safety

section Graphs

variable {view : MutableGraphView} {graph : GraphDef}

section

variable (isGraph : view.graph.map StoredNode.nodeDef = graph)

include isGraph

theorem feeds_iff_listed {a b : String} :
    view.Feeds a b ↔ ∃ def_ ∈ graph, def_.name = b ∧ ∃ input ∈ def_.input, input.node = a := by
  have atIndex : ∀ {i : Nat} {def_ : NodeDef}, view.nodeDef? i = some def_ ↔ graph[i]? = some def_ := by
    intro i def_
    rw [← isGraph, List.getElem?_map]
    rfl
  constructor
  · intro ⟨i, def_, atI, facts⟩
    exact ⟨def_, List.mem_of_getElem? (atIndex.1 atI), facts⟩
  · intro ⟨def_, mem, facts⟩
    obtain ⟨i, atI⟩ := List.mem_iff_getElem?.1 mem
    exact ⟨i, def_, atIndex.2 atI, facts⟩

/-- A graph whose nodes come after their inputs has no cycle. -/
theorem acyclic_of_listed (sorted : ∀ def_ ∈ graph, ∀ input ∈ def_.input,
      (graph.map NodeDef.name).idxOf input.node < (graph.map NodeDef.name).idxOf def_.name) : Acyclic view.Feeds := by
  apply Acyclic.of_rank (graph.map NodeDef.name).idxOf
  intro a b step
  obtain ⟨def_, mem, isName, input, inputMember, isInput⟩ := (feeds_iff_listed isGraph).1 step
  rw [← isName, ← isInput]
  exact sorted def_ mem input inputMember

theorem not_leads_of_unread {a b : String}
    (unread : ∀ def_ ∈ graph, ∀ input ∈ def_.input, input.node ≠ a) (ne : a ≠ b) :
    ¬ ReflTransGen view.Feeds a b := by
  intro path
  rcases path.cases_head with same | ⟨c, step, -⟩
  · exact ne same
  · obtain ⟨def_, mem, -, input, inputMember, isInput⟩ := (feeds_iff_listed isGraph).1 step
    exact unread def_ mem input inputMember isInput

end

end Graphs

def floatBias : AttrMap := (∅ : AttrMap).insert "T" (.type .float)

def gradContext (view : MutableGraphView) : RemapperContext :=
  ⟨view, [], fun _ => .ok [⟨false, [8, 4]⟩], fun _ => .ok [⟨false, [2, 4]⟩], fun _ => false, fun _ => false⟩

/-- The gradient of a bias is, reshaped, the first input of the convolution. -/
def loopGraph : GraphDef :=
  [⟨"dz", "Placeholder", "", [], ∅⟩, ⟨"sizes", "Const", "", [], ∅⟩,
    ⟨"bias", "BiasAddGrad", "", [⟨"dz", .port 0⟩], floatBias⟩,
    ⟨"x", "Reshape", "", [⟨"bias", .port 0⟩, ⟨"sizes", .port 0⟩], ∅⟩,
    ⟨"conv", "Conv2DBackpropFilter", "", [⟨"x", .port 0⟩, ⟨"sizes", .port 0⟩, ⟨"dz", .port 0⟩], ∅⟩]

/-- Merging that bias into the convolution closes a cycle. -/
theorem loopGraph_cyclic : ∃ view rewritten, construct loopGraph = .ok view ∧ Acyclic view.Feeds ∧
    FindsContraction (gradContext view) 2 ⟨4, 2, [3]⟩ ∧
    (gradContext view).addFusedContractionGradNode (fun _ => []) Session.listedOrder ⟨4, 2, [3]⟩ = .ok rewritten ∧
    ¬ Acyclic rewritten.view.Feeds := by
  have cyclic : ∀ view' : MutableGraphView, view'.Feeds "conv" "x" → view'.Feeds "x" "conv" → ¬ Acyclic view'.Feeds :=
    fun view' first second acyclic => acyclic "conv" (.head first (.single second))
  refine ⟨_, _, rfl, acyclic_of_listed rfl (by decide), .inr rfl, rfl, cyclic _ ?_ ?_⟩
  · exact (feeds_iff_listed rfl).2 (by decide)
  · exact (feeds_iff_listed rfl).2 (by decide)

/-- A convolution and a `BiasAddGrad` that share `dz`. -/
def sharedGraph : GraphDef :=
  [⟨"dz", "Placeholder", "", [], ∅⟩, ⟨"sizes", "Const", "", [], ∅⟩, ⟨"x", "Placeholder", "", [], ∅⟩,
    ⟨"bias", "BiasAddGrad", "", [⟨"dz", .port 0⟩], floatBias⟩,
    ⟨"conv", "Conv2DBackpropFilter", "", [⟨"x", .port 0⟩, ⟨"sizes", .port 0⟩, ⟨"dz", .port 0⟩], ∅⟩,
    ⟨"out", "Identity", "", [⟨"bias", .port 0⟩], ∅⟩]

/-- A `BiasAddGrad` next to a `Reshape` that a convolution reads. -/
def reshapeGraph : GraphDef :=
  [⟨"root", "Placeholder", "", [], ∅⟩, ⟨"shape", "Const", "", [], ∅⟩, ⟨"x", "Placeholder", "", [], ∅⟩,
    ⟨"bias", "BiasAddGrad", "", [⟨"root", .port 0⟩], floatBias.insert "data_format" (.s "NHWC")⟩,
    ⟨"dz", "Reshape", "", [⟨"root", .port 0⟩, ⟨"shape", .port 0⟩], ∅⟩,
    ⟨"conv", "Conv2DBackpropFilter", "", [⟨"x", .port 0⟩, ⟨"shape", .port 0⟩, ⟨"dz", .port 0⟩], ∅⟩,
    ⟨"out", "Identity", "", [⟨"bias", .port 0⟩], ∅⟩]

theorem sharedGraph_computed : ∃ view rewritten contraction bias, construct sharedGraph = .ok view ∧
    view.graph.map StoredNode.nodeDef = sharedGraph ∧ sharedGraph[4]? = some contraction ∧ sharedGraph[3]? = some bias ∧
    view.nodeDef? 4 = some contraction ∧ view.nodeDef? 3 = some bias ∧ FindsContraction (gradContext view) 3 ⟨4, 3, [5]⟩ ∧
    (gradContext view).addFusedContractionGradNode (fun _ => []) Session.listedOrder ⟨4, 3, [5]⟩ = .ok rewritten :=
  ⟨_, _, _, _, rfl, rfl, rfl, rfl, rfl, rfl, .inr rfl, rfl⟩

theorem sharedGraph_reshapeGraph_acyclic : (∃ view rewritten, construct sharedGraph = .ok view ∧
      FindsContraction (gradContext view) 3 ⟨4, 3, [5]⟩ ∧
      (gradContext view).addFusedContractionGradNode (fun _ => []) Session.listedOrder ⟨4, 3, [5]⟩ = .ok rewritten ∧
      Acyclic rewritten.view.Feeds) ∧ ∃ view rewritten, construct reshapeGraph = .ok view ∧
      (gradContext view).findContractionWithReshapeAndBiasAddGrad 3 = .ok (some ⟨0, 4, 3⟩) ∧
      (gradContext view).addContractionWithReshapeAndBiasAddGrad (fun _ => []) Session.listedOrder
        ⟨0, 4, 3⟩ = .ok rewritten ∧ Acyclic rewritten.view.Feeds := by
  constructor
  · obtain ⟨view, rewritten, contraction, bias, built, isGraph, isContraction, isBias, atContraction, atBias, found,
      returned⟩ := sharedGraph_computed
    refine ⟨view, rewritten, built, found, returned, ?_⟩
    have acyclic : Acyclic view.Feeds := acyclic_of_listed isGraph (by decide)
    apply ((@gradFusions_acyclic_iff (gradContext view) (construct_inv built).1.navigable acyclic
      _ _ _ _ _).1 found atContraction atBias returned).2
    intro reader data ⟨i, def_, atI, isReader, member⟩ ⟨input, inputMember, isData⟩
    have listed : def_ ∈ sharedGraph := by
      rw [← isGraph]
      exact List.mem_of_getElem? (by rw [List.getElem?_map]; exact atI)
    have onlyOut : ∀ def_ ∈ sharedGraph, ⟨"bias", .port 0⟩ ∈ def_.input → def_.name = "out" := by decide
    cases isBias
    cases isContraction
    rw [← isReader, onlyOut def_ listed member, ← isData]
    apply not_leads_of_unread isGraph (by decide)
    have notOut : ∀ input ∈ ([⟨"x", .port 0⟩, ⟨"sizes", .port 0⟩, ⟨"dz", .port 0⟩] : List TensorId),
        "out" ≠ input.node := by decide
    exact notOut input inputMember
  · obtain ⟨view, rewritten, reshape, bias, built, isGraph, isReshape, isBias, atReshape, atBias, found, returned⟩ :
        ∃ view rewritten reshape bias, construct reshapeGraph = .ok view ∧
          view.graph.map StoredNode.nodeDef = reshapeGraph ∧ reshapeGraph[4]? = some reshape ∧
          reshapeGraph[3]? = some bias ∧ view.nodeDef? 4 = some reshape ∧ view.nodeDef? 3 = some bias ∧
          (gradContext view).findContractionWithReshapeAndBiasAddGrad 3 = .ok (some ⟨0, 4, 3⟩) ∧
          (gradContext view).addContractionWithReshapeAndBiasAddGrad (fun _ => []) Session.listedOrder
            ⟨0, 4, 3⟩ = .ok rewritten := ⟨_, _, _, _, rfl, rfl, rfl, rfl, rfl, rfl, rfl, rfl⟩
    refine ⟨view, rewritten, built, found, returned, ?_⟩
    have acyclic : Acyclic view.Feeds := acyclic_of_listed isGraph (by decide)
    apply ((@gradFusions_acyclic_iff (gradContext view) (construct_inv built).1.navigable acyclic
      _ _ _ _ _).2 found atReshape atBias returned).2
    cases isReshape
    cases isBias
    intro path
    rcases path.cases_head with same | ⟨c, step, rest⟩
    · revert same
      decide
    · obtain ⟨def_, member, isC, reads⟩ := (feeds_iff_listed isGraph).1 step
      have onlyOut : ∀ def_ ∈ reshapeGraph, (∃ input ∈ def_.input, input.node = "bias") →
          def_.name = "out" := by decide
      rw [← isC, onlyOut def_ member reads] at rest
      exact not_leads_of_unread isGraph (by decide) (by decide) rest

/-- The order of the nodes of that graph is kept. -/
theorem sharedGraph_keepsOrder : ∃ view rewritten, construct sharedGraph = .ok view ∧
    FindsContraction (gradContext view) 3 ⟨4, 3, [5]⟩ ∧
    (gradContext view).addFusedContractionGradNode (fun _ => []) Session.listedOrder ⟨4, 3, [5]⟩ = .ok rewritten ∧
    ∀ u v, u ≠ "bias" → v ≠ "bias" → TransGen view.Feeds u v → TransGen (Without "bias" rewritten.view.Feeds) u v := by
  obtain ⟨view, rewritten, contraction, bias, built, isGraph, isContraction, isBias, atContraction, atBias, found,
    returned⟩ := sharedGraph_computed
  have acyclic : Acyclic view.Feeds := acyclic_of_listed isGraph (by decide)
  cases isContraction
  cases isBias
  refine ⟨view, rewritten, built, found, returned, ?_⟩
  apply (addFusedContractionGradNode_keepsOrder_iff (construct_inv built).1.navigable acyclic found
    atContraction atBias ⟨rfl, ?_⟩ returned).2
  · intro input member _
    exact ⟨input.node, ⟨input, member, rfl⟩, .refl⟩
  · intro i def_ port atI member
    have listed : def_ ∈ sharedGraph := by
      rw [← isGraph]
      exact List.mem_of_getElem? (by rw [List.getElem?_map]; exact atI)
    have onlyFirst : ∀ def_ ∈ sharedGraph, ∀ input ∈ def_.input, input.index = .port 0 := by decide
    cases onlyFirst def_ listed _ member
    rfl

/-- The convolution waits for another node. -/
def controlGraph : GraphDef :=
  [⟨"dz", "Placeholder", "", [], ∅⟩, ⟨"sizes", "Const", "", [], ∅⟩, ⟨"x", "Placeholder", "", [], ∅⟩,
    ⟨"save", "NoOp", "", [], ∅⟩, ⟨"bias", "BiasAddGrad", "", [⟨"dz", .port 0⟩], floatBias⟩,
    ⟨"conv", "Conv2DBackpropFilter", "",
      [⟨"x", .port 0⟩, ⟨"sizes", .port 0⟩, ⟨"dz", .port 0⟩, ⟨"save", .controlSlot⟩], ∅⟩,
    ⟨"out", "Identity", "", [⟨"bias", .port 0⟩], ∅⟩]

/-- After the fusion, the convolution no longer waits for it. -/
theorem controlGraph_reordered : ∃ view rewritten, construct controlGraph = .ok view ∧
    Acyclic view.Feeds ∧ FindsContraction (gradContext view) 4 ⟨5, 4, [6]⟩ ∧
    (gradContext view).addFusedContractionGradNode (fun _ => []) Session.listedOrder ⟨5, 4, [6]⟩ = .ok rewritten ∧
    TransGen view.Feeds "save" "conv" ∧ ¬ TransGen (Without "bias" rewritten.view.Feeds) "save" "conv" := by
  have unread : ∀ (view : MutableGraphView) (graph : GraphDef), view.graph.map StoredNode.nodeDef = graph →
      (∀ def_ ∈ graph, ∀ input ∈ def_.input, input.node ≠ "save") →
      ¬ TransGen (Without "bias" view.Feeds) "save" "conv" := by
    intro view graph isGraph noneReads path
    have weaker : Without "bias" view.Feeds ≤ view.Feeds := fun _ _ step => step.2.2
    exact not_leads_of_unread isGraph noneReads (by decide)
      (TransGen.mono weaker _ _ path).to_reflTransGen
  refine ⟨_, _, rfl, acyclic_of_listed rfl (by decide), .inr rfl, rfl, .single ?_, unread _ _ rfl ?_⟩
  · exact (feeds_iff_listed rfl).2 (by decide)
  · decide

end Itex.Remapper
