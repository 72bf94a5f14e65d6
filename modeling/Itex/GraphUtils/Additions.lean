import Itex.GraphUtils.Construction
import Itex.GraphUtils.Removals

/-!
Contract: `Mutation::Apply` of a mutation that adds nodes under names that the graph has.

Owns: the nodes of the graph after such a mutation: the added ones take the place of
those they are named after, and the others stay.
-/

namespace Itex.GraphUtils

open Itex.Graph (Failure require TensorId NodeDef require_eq_ok)
open Itex.Lib

namespace MutableGraphView

/-- Node `a` is an input of node `b`, by name. -/
def Feeds (view : MutableGraphView) (a b : String) : Prop :=
  ∃ i def_, view.nodeDef? i = some def_ ∧ def_.name = b ∧ ∃ input ∈ def_.input, input.node = a

theorem Indexed.eq_iff_name {view : MutableGraphView} (indexed : view.Indexed) {i index : Nat} {def_ : NodeDef}
    {name : String} (atDef : view.nodeDef? i = some def_) (isIndex : view.nodeIndexByName.lookup name = some index) :
    i = index ↔ name = def_.name := by
  constructor
  · intro isI
    obtain ⟨other, atOther, isOther⟩ := (indexed.names name index).1 isIndex
    rw [← isI, atDef] at atOther
    cases atOther
    exact isOther.symm
  · intro isName
    have isI := (indexed.names def_.name i).2 ⟨def_, atDef, rfl⟩
    rw [← isName, isIndex] at isI
    exact (Option.some.inj isI).symm

theorem Indexed.feeds_iff {view : MutableGraphView} (indexed : view.Indexed) {i : Nat} {def_ : NodeDef}
    (atI : view.nodeDef? i = some def_) {a : String} :
    view.Feeds a def_.name ↔ ∃ input ∈ def_.input, input.node = a := by
  constructor
  · intro ⟨j, other, atJ, sameName, input⟩
    have isI := indexed.eq_of_name atJ atI sameName
    rw [isI, atI] at atJ
    cases atJ
    exact input
  · intro input
    exact ⟨i, def_, atI, rfl, input⟩

end MutableGraphView

namespace NewNode

/-- The inputs that `SetNewNodesFanins` gives a new node. -/
def inputs (new : NewNode) (order : HashOrder) : List TensorId :=
  new.regularFanins.filterMap (fun fanin => fanin.map FaninId.tensorId) ++
    (order.strings new.controllingFanins).map fun name => ⟨name, .controlSlot⟩

end NewNode

namespace Session

open MutableGraphView

section AddNode

variable {session added : Session} {node : NodeDef}

structure Parsed (node : NodeDef) (new : NewNode) : Prop where
  isNode : new.node = { node with input := [] }
  full : none ∉ new.regularFanins
  inputs : ∀ (order : HashOrder) (input : TensorId), input ∈ new.inputs order ↔ input ∈ node.input

theorem addNode_appends (ran : session.addNode node = .ok added) : ∃ new, Parsed node new ∧ added = { session with
      mutation := { session.mutation with newNodes := session.mutation.newNodes ++ [new] } } := by
  unfold Session.addNode at ran
  obtain ⟨fanins, isFanins, ran⟩ := bind_ok.1 ran
  cases ran
  have read : none ∉ fanins.1 ∧ ∀ input : TensorId, input ∈ node.input ↔
      (∃ fanin, some fanin ∈ fanins.1 ∧ fanin.tensorId = input) ∨
        ∃ name ∈ fanins.2, (⟨name, .controlSlot⟩ : TensorId) = input := by
    refine foldlM_invariant (fun (seen : List TensorId) (reached : List (Option FaninId) × List String) =>
      none ∉ reached.1 ∧ ∀ input : TensorId, input ∈ seen ↔
        (∃ fanin, some fanin ∈ reached.1 ∧ fanin.tensorId = input) ∨
          ∃ name ∈ reached.2, (⟨name, .controlSlot⟩ : TensorId) = input)
      ⟨by simp, by simp⟩ ?_ isFanins
    intro seen input rest before after _ ih stepped
    obtain ⟨full, same⟩ := ih
    unfold addNodeFanin at stepped
    obtain ⟨_, -, stepped⟩ := bind_ok.1 stepped
    obtain ⟨name, index⟩ := input
    cases index with
    | controlSlot =>
      cases stepped
      grind
    | port index =>
      obtain ⟨_, -, stepped⟩ := bind_ok.1 stepped
      cases stepped
      refine ⟨by simp [full], fun input => ?_⟩
      simp only [List.mem_append, List.mem_singleton, same, Option.some.injEq, or_and_right, exists_or,
        exists_eq_left]
      rw [or_right_comm, eq_comm]
      rfl
  refine ⟨_, ⟨rfl, read.1, fun order input => ?_⟩, rfl⟩
  rw [read.2]
  unfold NewNode.inputs
  simp [(order.strings_perm fanins.2).mem_iff]

theorem addNode_returns (ordered : node.input.Pairwise fun first second =>
      first.index = .controlSlot → second.index = .controlSlot)
    (noSelf : ∀ input ∈ node.input, input.node ≠ node.name) : ∃ added, session.addNode node = .ok added := by
  obtain ⟨fanins, isFanins, -⟩ : ∃ fanins, node.input.foldlM (addNodeFanin node.name) ([], []) = .ok fanins ∧
        ((∀ input ∈ node.input, input.index ≠ .controlSlot) → fanins.2 = []) := by
    apply exists_foldlM_eq_ok (fun (seen : List TensorId) (reached : List (Option FaninId) × List String) =>
      (∀ input ∈ seen, input.index ≠ .controlSlot) → reached.2 = [])
    · exact fun _ => rfl
    · intro seen input rest before split ih
      have ne : input.node ≠ node.name := noSelf input (by rw [split]; simp)
      have require_ok : ∀ failure : Failure, require (input.node ≠ node.name) failure = .ok () :=
        fun failure => require_eq_ok.2 ne
      obtain ⟨name, index⟩ := input
      cases index with
      | controlSlot =>
        refine ⟨_, bind_ok.2 ⟨(), require_ok _, rfl⟩, fun regular => ?_⟩
        exact absurd rfl (regular ⟨name, .controlSlot⟩ (by simp))
      | port index =>
        have noControls : before.2 = [] := by
          apply ih
          intro earlier mem isControl
          rw [split, List.pairwise_append] at ordered
          have := ordered.2.2 earlier mem _ List.mem_cons_self isControl
          cases this
        refine ⟨_, bind_ok.2 ⟨(), require_ok _, bind_ok.2 ⟨(), require_eq_ok.2 noControls, rfl⟩⟩,
          fun _ => noControls⟩
  exact ⟨_, bind_ok.2 ⟨fanins, isFanins, rfl⟩⟩

end AddNode

section Inputs

variable {view view' : MutableGraphView} {index : Nat}

/-- The views differ in inputs appended to one node. -/
structure Appended (view : MutableGraphView) (index : Nat) (inputs : List TensorId)
    (view' : MutableGraphView) : Prop where
  names : view'.nodeIndexByName = view.nodeIndexByName
  length : view'.graph.length = view.graph.length
  defs : ∀ i, view'.nodeDef? i =
    if i = index then (view.nodeDef? i).map fun def_ => { def_ with input := def_.input ++ inputs }
    else view.nodeDef? i

theorem Appended.nil (view : MutableGraphView) (index : Nat) : Appended view index [] view := by
  refine ⟨rfl, rfl, ?_⟩
  intro i
  split
  · simp
  · rfl

theorem Appended.append {inputs : List TensorId} {input : TensorId} {view'' : MutableGraphView}
    (before : Appended view index inputs view') (names : view''.nodeIndexByName = view'.nodeIndexByName)
    (graph : view''.graph = (view'.modifyNodeDef index fun def_ =>
      { def_ with input := def_.input ++ [input] }).graph) :
    Appended view index (inputs ++ [input]) view'' := by
  have defs : ∀ i, view''.nodeDef? i = (view'.modifyNodeDef index fun def_ =>
      { def_ with input := def_.input ++ [input] }).nodeDef? i := by
    intro i
    unfold MutableGraphView.nodeDef?
    rw [graph]
  refine ⟨names.trans before.names, ?_, ?_⟩
  · rw [graph, ← before.length]
    simp [modifyNodeDef]
  · intro i
    rw [defs, nodeDef?_modifyNodeDef, before.defs]
    by_cases same : i = index
    · rw [if_pos same, if_pos same, if_pos same, Option.map_map]
      congr 1
      funext def_
      simp
    · rw [if_neg same, if_neg same, if_neg same]

theorem graph_modifyNodeDef_congr {first second : MutableGraphView} (same : second.graph = first.graph)
    (change : NodeDef → NodeDef) :
    (second.modifyNodeDef index change).graph = (first.modifyNodeDef index change).graph := by
  unfold modifyNodeDef
  rw [same]

theorem setNewNodeFanins_appended {order : HashOrder} {new : NewNode}
    (ran : setNewNodeFanins order view (index, new) = .ok view') :
    Appended view index (new.inputs order) view' := by
  unfold setNewNodeFanins at ran
  obtain ⟨linked, isLinked, ran⟩ := bind_ok.1 ran
  have regular : Appended view index
      (new.regularFanins.filterMap fun fanin => fanin.map FaninId.tensorId) linked := by
    refine foldlM_invariant (fun seen reached => Appended view index
      (seen.filterMap fun fanin => fanin.map FaninId.tensorId) reached) (.nil view index) ?_ isLinked
    intro seen fanin rest before after _ appended stepped
    cases fanin with
    | none => cases stepped
    | some fanin =>
      obtain ⟨added, isAdded, stepped⟩ := bind_ok.1 stepped
      cases stepped
      obtain ⟨faninIndex, -, isAdded⟩ := bind_ok.1 isAdded
      have same := (linkRegularFanin_added isAdded).toSameNodes
      rw [List.filterMap_append]
      exact appended.append same.nodeIndexByName (graph_modifyNodeDef_congr same.graph _)
  have controls : ∀ {names : List String} {reached : MutableGraphView} {inputs : List TensorId},
      Appended view index inputs reached →
      names.foldlM (addControllingFaninInternal index) reached = .ok view' →
      Appended view index (inputs ++ names.map fun name => ⟨name, .controlSlot⟩) view' := by
    intro names
    induction names with
    | nil =>
      intro reached inputs appended finished
      cases finished
      rw [List.map_nil, List.append_nil]
      exact appended
    | cons name names ih =>
      intro reached inputs appended finished
      rw [List.foldlM_cons] at finished
      obtain ⟨next, isNext, finished⟩ := bind_ok.1 finished
      obtain ⟨faninIndex, -, isNext⟩ := bind_ok.1 isNext
      have same := (linkControllingFanin_added isNext).toSameNodes
      have step := appended.append same.nodeIndexByName same.graph
      have after := ih step finished
      rw [List.append_assoc] at after
      exact after
  exact controls regular ran

end Inputs

section Nodes

variable {view : MutableGraphView}

/-- A node while new nodes take places: those in `cleared` have lost their inputs, those in
`filled` have their new ones. -/
structure Replaced (view : MutableGraphView) (order : HashOrder) (cleared filled : List NewNode)
    (view' : MutableGraphView) : Prop where
  names : view'.nodeIndexByName = view.nodeIndexByName
  length : view'.graph.length = view.graph.length
  defs : ∀ {i : Nat} {def_ : NodeDef}, view.nodeDef? i = some def_ →
    ∃ def_', view'.nodeDef? i = some def_' ∧ def_'.name = def_.name ∧
      (∀ new ∈ cleared, new.node.name = def_.name → def_'.op = new.node.op ∧
        def_'.device = new.node.device ∧ def_'.attr = new.node.attr ∧
        (new ∈ filled → def_'.input = new.inputs order) ∧ (new ∉ filled → def_'.input = [])) ∧
      ((∀ new ∈ cleared, new.node.name ≠ def_.name) → def_' = def_)

/-- The new nodes have names that the graph has, no two the same. -/
structure Overwrites (view : MutableGraphView) (news : List NewNode) : Prop where
  distinct : (news.map fun new => new.node.name).Nodup
  existing : ∀ new ∈ news, new.node.name ∈ view.nodeIndexByName

theorem Overwrites.eq_of_name {news : List NewNode} (overwrites : Overwrites view news)
    {first second : NewNode} (firstMember : first ∈ news) (secondMember : second ∈ news)
    (same : first.node.name = second.node.name) : first = second :=
  List.inj_on_of_nodup_map overwrites.distinct firstMember secondMember same

theorem Replaced.start (order : HashOrder) : Replaced view order [] [] view :=
  ⟨rfl, rfl, fun {_ def_} atDef => ⟨def_, atDef, rfl, by simp, fun _ => rfl⟩⟩

section

variable (indexed : view.Indexed) {order : HashOrder} {news seen rest : List NewNode} {new : NewNode}
  (overwrites : Overwrites view news) (split : news = seen ++ new :: rest)

include indexed overwrites split

theorem Replaced.addNewNode {progress progress' : Progress} (before : Replaced view order seen [] progress.view)
    (ran : addNewNode progress new = .ok progress') : Replaced view order (seen ++ [new]) [] progress'.view ∧
      progress'.mutation.updatedNodes = progress.mutation.updatedNodes ∧
      progress'.mutation.newNodes = progress.mutation.newNodes ∧
      (progress.mutation.removedNodes = [] → progress'.mutation.removedNodes = []) ∧
      progress'.renamedFanouts = progress.renamedFanouts ∧ progress'.renamedNodes = progress.renamedNodes ∧
      ∃ index, view.nodeIndexByName.lookup new.node.name = some index ∧
        progress'.newNodeIndices = progress.newNodeIndices ++ [index] := by
  have mem : new ∈ news := by rw [split]; simp
  obtain ⟨index, isIndex⟩ :=
    Option.isSome_iff_exists.1 (AList.lookup_isSome.2 (overwrites.existing new mem))
  unfold Session.addNewNode at ran
  rw [before.names, isIndex] at ran
  obtain ⟨cleared, isCleared, ran⟩ := bind_ok.1 ran
  cases ran
  have same := removeAllFaninFanoutInternal_sameNodes isCleared
  refine ⟨⟨same.nodeIndexByName.trans before.names, ?_, ?_⟩, rfl, rfl, ?_, rfl, rfl, index, isIndex, rfl⟩
  · have length : cleared.graph.length = view.graph.length := by rw [same.graph, before.length]
    simpa [modifyNodeDef] using length
  · intro i def_ atDef
    obtain ⟨def_', atDef', isName, replaced, kept⟩ := before.defs atDef
    have atCleared : cleared.nodeDef? i = some def_' := by
      unfold MutableGraphView.nodeDef? at atDef' ⊢
      rw [same.graph]
      exact atDef'
    have atIndex := indexed.eq_iff_name atDef isIndex
    have unseen : ∀ old ∈ seen, new.node.name = def_.name → old.node.name ≠ def_.name := by
      intro old oldMember isNew isOld
      have isSame := overwrites.eq_of_name mem (split ▸ List.mem_append_left _ oldMember)
        (isNew.trans isOld.symm)
      have distinct := overwrites.distinct
      grind
    by_cases isNew : new.node.name = def_.name
    · refine ⟨⟨def_'.name, new.node.op, new.node.device, [], new.node.attr⟩, ?_, isName, ?_, ?_⟩
      · rw [nodeDef?_modifyNodeDef, if_pos (atIndex.2 isNew), atCleared]
        rfl
      · grind
      · intro none
        exact absurd isNew (none new (by simp))
    · refine ⟨def_', ?_, isName, ?_, ?_⟩
      · rw [nodeDef?_modifyNodeDef, if_neg fun isI => isNew (atIndex.1 isI)]
        exact atCleared
      · grind
      · intro none
        exact kept fun old oldMember => none old (List.mem_append_left _ oldMember)
  · intro noRemovals
    simp [noRemovals]

theorem Replaced.setNewNodeFanins {view' view'' : MutableGraphView} {index : Nat}
    (isIndex : view.nodeIndexByName.lookup new.node.name = some index) (before : Replaced view order news seen view')
    (ran : setNewNodeFanins order view' (index, new) = .ok view'') :
    Replaced view order news (seen ++ [new]) view'' := by
  have mem : new ∈ news := by rw [split]; simp
  have appended := setNewNodeFanins_appended ran
  have notSeen : new ∉ seen := by
    intro inSeen
    have distinct := overwrites.distinct
    rw [split, List.map_append, List.nodup_append] at distinct
    exact distinct.2.2 _ (List.mem_map_of_mem inSeen) _ (List.mem_map_of_mem List.mem_cons_self) rfl
  refine ⟨appended.names.trans before.names, appended.length.trans before.length, ?_⟩
  intro i def_ atDef
  obtain ⟨def_', atDef', isName, replaced, kept⟩ := before.defs atDef
  have atIndex := indexed.eq_iff_name atDef isIndex
  by_cases isNew : new.node.name = def_.name
  · refine ⟨{ def_' with input := def_'.input ++ new.inputs order }, ?_, isName, ?_, ?_⟩
    · rw [appended.defs, if_pos (atIndex.2 isNew), atDef']
      rfl
    · intro old oldMember isOld
      have isSame := overwrites.eq_of_name oldMember mem (isOld.trans isNew.symm)
      grind
    · intro none
      exact absurd isNew (none new mem)
  · refine ⟨def_', ?_, isName, ?_, kept⟩
    · rw [appended.defs, if_neg fun isI => isNew (atIndex.1 isI)]
      exact atDef'
    · grind

end

end Nodes

theorem nodup_of_markPresent {news : List NewNode} {names names' : NodeNames}
    (ran : news.foldlM (fun names new => names.markPresent new.node.name) names = .ok names') :
    (news.map fun new => new.node.name).Nodup := by
  have marked : (∀ name ∈ news.map fun new => new.node.name, names'.lookup name = some none) ∧
      (news.map fun new => new.node.name).Nodup := by
    refine foldlM_invariant (fun (seen : List NewNode) (reached : NodeNames) =>
      (∀ name ∈ seen.map fun new => new.node.name, reached.lookup name = some none) ∧
        (seen.map fun new => new.node.name).Nodup) ⟨by simp, by simp⟩ ?_ ran
    intro seen new rest before after _ ih stepped
    have fresh : before.lookup new.node.name ≠ some none := by
      intro present
      unfold NodeNames.markPresent at stepped
      rw [present] at stepped
      cases stepped
    have isAfter : after = before.insert new.node.name none := by
      unfold NodeNames.markPresent at stepped
      split at stepped
      · cases stepped
      · exact (Except.ok.inj stepped).symm
      · exact (Except.ok.inj stepped).symm
    rw [List.map_append, List.map_singleton]
    constructor
    · intro name mem
      rw [isAfter]
      by_cases isNew : name = new.node.name
      · rw [isNew, AList.lookup_insert]
      · rw [AList.lookup_insert_ne isNew]
        apply ih.1
        rcases List.mem_append.1 mem with earlier | last
        · exact earlier
        · exact absurd (List.mem_singleton.1 last) isNew
    · grind
  exact marked.2

theorem removeNodesInternal_nothing {order : HashOrder} {progress : Progress} {view' : MutableGraphView}
    (noneRenamed : progress.renamedNodes = []) (noneRemoved : progress.mutation.removedNodes = [])
    (ran : removeNodesInternal order progress = .ok view') : view' = progress.view := by
  have noIndices : order.indices [] = [] := List.Perm.eq_nil (order.indices_perm [])
  unfold removeNodesInternal at ran
  rw [noneRenamed, noneRemoved, noIndices] at ran
  have isView := Except.ok.inj ran
  simpa using isView.symm

theorem addNewNodes_replaced {order : HashOrder} {start progress : Progress} {news : List NewNode}
    (indexed : start.view.Indexed) (overwrites : Overwrites start.view news)
    (noneRemoved : start.mutation.removedNodes = []) (noIndices : start.newNodeIndices = [])
    (ran : news.foldlM addNewNode start = .ok progress) : Replaced start.view order news [] progress.view ∧
      progress.mutation.updatedNodes = start.mutation.updatedNodes ∧
      progress.mutation.newNodes = start.mutation.newNodes ∧
      progress.mutation.removedNodes = [] ∧ progress.renamedFanouts = start.renamedFanouts ∧
      progress.renamedNodes = start.renamedNodes ∧ progress.newNodeIndices.map some =
        news.map fun new => start.view.nodeIndexByName.lookup new.node.name := by
  refine foldlM_invariant (fun (seen : List NewNode) (reached : Progress) =>
    Replaced start.view order seen [] reached.view ∧ reached.mutation.updatedNodes = start.mutation.updatedNodes ∧
      reached.mutation.newNodes = start.mutation.newNodes ∧
      reached.mutation.removedNodes = [] ∧ reached.renamedFanouts = start.renamedFanouts ∧
      reached.renamedNodes = start.renamedNodes ∧
      reached.newNodeIndices.map some = seen.map fun new => start.view.nodeIndexByName.lookup new.node.name)
    ⟨.start order, rfl, rfl, noneRemoved, rfl, rfl, by simp [noIndices]⟩ ?_ ran
  intro seen new rest before after split ih stepped
  obtain ⟨replaced, updated, newNodes, removed, fanouts, renamed, indices⟩ := ih
  obtain ⟨replaced', updated', newNodes', removed', fanouts', renamed', index, isIndex, indices'⟩ :=
    replaced.addNewNode indexed overwrites split stepped
  simp_all

theorem setNewNodesFanins_replaced {order : HashOrder} {view added linked : MutableGraphView}
    {news : List NewNode} {indices : List Nat} (indexed : view.Indexed) (overwrites : Overwrites view news)
    (isIndices : indices.map some = news.map fun new => view.nodeIndexByName.lookup new.node.name)
    (replaced : Replaced view order news [] added)
    (ran : (indices.zip news).foldlM (setNewNodeFanins order) added = .ok linked) :
    Replaced view order news news linked := by
  have sameLength : indices.length = news.length := by simpa using congrArg List.length isIndices
  have seconds : (indices.zip news).map Prod.snd = news := List.map_snd_zip (by omega)
  have done : Replaced view order news ((indices.zip news).map Prod.snd) linked := by
    refine foldlM_invariant (fun (seen : List (Nat × NewNode)) (reached : MutableGraphView) =>
      Replaced view order news (seen.map Prod.snd) reached) replaced ?_ ran
    intro seen entry rest before after split ih stepped
    have isNews : news = seen.map Prod.snd ++ entry.2 :: rest.map Prod.snd := by
      have := congrArg (List.map Prod.snd) split
      rw [seconds] at this
      simpa using this
    have isIndex : view.nodeIndexByName.lookup entry.2.node.name = some entry.1 := by
      have mem : entry ∈ indices.zip news := by rw [split]; simp
      obtain ⟨k, bound, atK⟩ := List.getElem_of_mem mem
      rw [List.getElem_zip] at atK
      have same := congrArg (fun l : List (Option Nat) => l[k]?) isIndices
      grind
    rw [List.map_append, List.map_singleton]
    exact ih.setNewNodeFanins indexed overwrites isNews isIndex stepped
  rw [seconds] at done
  exact done

theorem apply_additions {session applied : Session} {order : HashOrder}
    (indexed : session.view.Indexed) (noUpdates : session.mutation.updatedNodes = [])
    (noRemovals : session.mutation.removedNodes = [])
    (existing : ∀ new ∈ session.mutation.newNodes, new.node.name ∈ session.view.nodeIndexByName)
    (full : ∀ new ∈ session.mutation.newNodes, none ∉ new.regularFanins)
    (ran : session.apply order = .ok applied) : Overwrites session.view session.mutation.newNodes ∧
      Replaced session.view order session.mutation.newNodes session.mutation.newNodes applied.view := by
  have trims : session.mutation.newNodes.map (fun new =>
      { new with regularFanins := trimEnd new.regularFanins none }) = session.mutation.newNodes := by
    rw [List.map_congr_left (g := id), List.map_id]
    intro new mem
    have unchanged : trimEnd new.regularFanins none = new.regularFanins := by
      apply List.rdropWhile_eq_self_iff.2
      grind
    rw [unchanged]
    rfl
  have trimmedIs : session.trimmed = session := by
    obtain ⟨view, updatedNodes, removedNodes, newNodes⟩ := session
    cases noUpdates
    unfold trimmed
    rw [trims]
    rfl
  unfold apply at ran
  rw [trimmedIs] at ran
  obtain ⟨partition, isPartition, ran⟩ := bind_ok.1 ran
  obtain ⟨noRenames, noEmptyDiffs, _, _, areNames⟩ := validateInternal_without_updates noUpdates isPartition
  have overwrites : Overwrites session.view session.mutation.newNodes := ⟨nodup_of_markPresent areNames, existing⟩
  refine ⟨overwrites, ?_⟩
  obtain ⟨renamed, isRenamed, ran⟩ := bind_ok.1 ran
  obtain ⟨added, isAdded, ran⟩ := bind_ok.1 ran
  obtain ⟨abandoned, isAbandoned, ran⟩ := bind_ok.1 ran
  obtain ⟨updated, isUpdated, ran⟩ := bind_ok.1 ran
  obtain ⟨linked, isLinked, ran⟩ := bind_ok.1 ran
  obtain ⟨view, isView, ran⟩ := bind_ok.1 ran
  cases ran
  rw [noRenames, noEmptyDiffs] at isRenamed
  cases isRenamed
  obtain ⟨replaced, updatedNodes, newNodes, removed, fanouts, renamedNodes, indices⟩ :=
    @addNewNodes_replaced order _ _ _ indexed overwrites noRemovals rfl isAdded
  rw [fanouts] at isAbandoned
  have abandonedIs := fixRenamedFanouts_nothing isAbandoned
  rw [updatedNodes, abandonedIs] at isUpdated
  dsimp only at isUpdated
  rw [noUpdates] at isUpdated
  cases isUpdated
  rw [newNodes] at isLinked
  have filled := setNewNodesFanins_replaced indexed overwrites indices replaced isLinked
  have viewIs : view = linked :=
    @removeNodesInternal_nothing order { added with view := linked } view renamedNodes removed isView
  rw [viewIs]
  exact filled

/-- The edges of the graph once new nodes have taken their places. -/
theorem Replaced.feeds_iff {view view' : MutableGraphView} {order : HashOrder} {news : List NewNode}
    (replaced : Replaced view order news news view') {a b : String} : view'.Feeds a b ↔
      ((∃ i def_, view.nodeDef? i = some def_ ∧ def_.name = b) ∧
        ∃ new ∈ news, new.node.name = b ∧ ∃ input ∈ new.inputs order, input.node = a) ∨
      ((∀ new ∈ news, new.node.name ≠ b) ∧ view.Feeds a b) := by
  constructor
  · intro ⟨i, def_', atI', isName', input, mem, isA⟩
    obtain ⟨def_, atI⟩ : ∃ def_, view.nodeDef? i = some def_ := by
      obtain ⟨stored, atStored, -⟩ := Option.map_eq_some_iff.1 atI'
      have bound := read_lt atStored
      rw [replaced.length] at bound
      exact ⟨_, by rw [nodeDef?, List.getElem?_eq_getElem bound]; rfl⟩
    obtain ⟨other, atOther, isName, changed, kept⟩ := replaced.defs atI
    rw [atI'] at atOther
    cases atOther
    rw [isName] at isName'
    by_cases overwritten : ∃ new ∈ news, new.node.name = b
    · grind
    · have untouched : ∀ new ∈ news, new.node.name ≠ b := by
        intro new newMember isNew
        exact overwritten ⟨new, newMember, isNew⟩
      rw [kept (by rw [isName']; exact untouched)] at mem
      exact .inr ⟨untouched, i, def_, atI, isName', input, mem, isA⟩
  · rintro (⟨⟨i, def_, atI, isName'⟩, new, newMember, isNew, input, mem, isA⟩ |
      ⟨untouched, i, def_, atI, isName', input, mem, isA⟩)
    · obtain ⟨def_', atI', isName, changed, -⟩ := replaced.defs atI
      obtain ⟨-, -, -, isInput, -⟩ := changed new newMember (isNew.trans isName'.symm)
      exact ⟨i, def_', atI', isName.trans isName', input, by rw [isInput newMember]; exact mem, isA⟩
    · obtain ⟨def_', atI', isName, -, kept⟩ := replaced.defs atI
      rw [kept (by rw [isName']; exact untouched)] at atI'
      exact ⟨i, def_, atI', isName', input, mem, isA⟩

end Session

end Itex.GraphUtils
