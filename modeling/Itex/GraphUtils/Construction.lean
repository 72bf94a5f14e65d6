import Itex.GraphUtils.Invariant

/-!
Contract: the constructor of `utils::MutableGraphView` establishes the representation
invariant.

Owns: the invariant of the loop over one node's inputs and of the loop over all nodes.
-/

namespace Itex.GraphUtils

open Itex.Graph (PortId TensorId NodeDef GraphDef require_eq_ok)
open Itex.Lib

namespace MutableGraphView

theorem addUniqueNodes_names {graph : GraphDef} {byName : AList fun _ : String => Nat}
    (ran : graph.foldlM addUniqueNodeInternal ∅ = .ok byName) :
    ∀ name i, byName.lookup name = some i ↔ ∃ def_, graph[i]? = some def_ ∧ def_.name = name := by
  have both := foldlM_invariant
    (fun seen (byName : AList fun _ : String => Nat) => byName.entries.length = seen.length ∧
      ∀ name i, byName.lookup name = some i ↔ ∃ def_, seen[i]? = some def_ ∧ def_.name = name)
    (by simp) ?_ ran
  · exact both.2
  · intro seen node rest byName byName' _ holds stepped
    obtain ⟨counted, named⟩ := holds
    unfold addUniqueNodeInternal at stepped
    by_cases listed : node.name ∈ byName
    · rw [if_pos listed] at stepped
      cases stepped
    rw [if_neg listed] at stepped
    cases stepped
    constructor
    · rw [AList.entries_insert_of_notMem listed, List.length_cons, counted, List.length_append, List.length_singleton]
    intro name i
    rw [counted]
    simp only [getElem?_concat_ite]
    by_cases isNew : name = node.name
    · rw [isNew, AList.lookup_insert]
      constructor
      · intro atEnd
        cases atEnd
        exact ⟨node, if_pos rfl, rfl⟩
      · rintro ⟨def_, atI, sameName⟩
        split at atI
        next atEnd => rw [atEnd]
        next =>
          have atName := (named node.name i).2 ⟨def_, atI, sameName⟩
          exact absurd (AList.lookup_isSome.1 (by rw [atName]; rfl)) listed
    · rw [AList.lookup_insert_ne isNew, named]
      grind

/-- What `CheckFaninsInternal` accepts. -/
structure Checked (name : String) (inputs : List TensorId) : Prop where
  noSelfLoop : ∀ fanin ∈ inputs, fanin.node ≠ name
  ordered : inputs.Pairwise fun before after => before.index = .controlSlot → after.index = .controlSlot

theorem checked_of_checkFaninsInternal {byName : AList fun _ : String => Nat} {node : NodeDef}
    (ran : checkFaninsInternal byName node = .ok ()) : Checked node.name node.input := by
  unfold checkFaninsInternal at ran
  obtain ⟨observed, folded, -⟩ := bind_ok.1 ran
  have all := foldlM_invariant
    (fun seen observed => Checked node.name seen ∧ (observed = false → ∀ fanin ∈ seen, fanin.index ≠ .controlSlot))
    ⟨⟨by simp, .nil⟩, by simp⟩ ?_ folded
  · exact all.1
  · intro seen fanin rest observed observed' _ holds stepped
    obtain ⟨checked, noControl⟩ := holds
    unfold checkFanin at stepped
    dsimp only at stepped
    obtain ⟨_, notSelf, stepped⟩ := bind_ok.1 stepped
    obtain ⟨_, notAfter, stepped⟩ := bind_ok.1 stepped
    obtain ⟨_, _, stepped⟩ := bind_ok.1 stepped
    rw [require_eq_ok] at notSelf notAfter
    cases stepped
    refine ⟨⟨?_, ?_⟩, ?_⟩
    · intro other mem
      rcases List.mem_append.1 mem with before | isNew
      · exact checked.noSelfLoop other before
      · rw [List.mem_singleton.1 isNew]
        exact notSelf
    · rw [List.pairwise_append]
      refine ⟨checked.ordered, List.pairwise_singleton _ _, ?_⟩
      grind
    · grind

/-! ## The inputs of one node -/

/-- The parts of the invariant that do not read the inputs of a `NodeDef`. -/
structure Wired (view : MutableGraphView) : Prop where
  indexed : view.Indexed
  linked : view.Linked
  attached : view.Attached
  summarized : ∀ node ∈ view.nodes, view.Summarized node

/-- The loop over the inputs of node `i`, which began in `start`, has kept `kept`. -/
structure Scanned (start : MutableGraphView) (i : Nat) (inputs unread kept : List TensorId)
    (view : MutableGraphView) : Prop extends Wired view where
  same : SameNodes start view
  others : ∀ i' ≠ i, view.field (·.regularFanins) i' = start.field (·.regularFanins) i' ∧
    view.field (·.controllingFanins) i' = start.field (·.controllingFanins) i'
  own : ∃ node, view.nodes[i]? = some node ∧ kept = view.inputsOf node
  ordered : (kept ++ unread).Pairwise fun before after =>
    before.index = .controlSlot → after.index = .controlSlot
  keptFrom : ∀ fanin ∈ kept, fanin ∈ inputs
  unreadFrom : ∀ fanin ∈ unread, fanin ∈ inputs

theorem nameAt_of_indexOfName {view : MutableGraphView} (indexed : view.Indexed) {name : String}
    {p : Nat} (found : view.indexOfName name = .ok p) : view.nameAt p = name := by
  unfold indexOfName at found
  split at found
  next index atName =>
    cases found
    obtain ⟨def_, atP, sameName⟩ := (indexed.names _ _).1 atName
    simp [nameAt, atP, sameName]
  next => cases found

section Scan

variable {start view view' : MutableGraphView} {i p : Nat} {inputs unread kept : List TensorId}

theorem inputsOf_congr (same : SameNodes view view') (node : MutableNodeView) :
    view'.inputsOf node = view.inputsOf node := by
  unfold inputsOf
  simp only [same.nameAt]

theorem Scanned.keepRegular {name : String} {port : Nat}
    (scanned : Scanned start i inputs (⟨name, .port port⟩ :: unread) kept view)
    (found : view.indexOfName name = .ok p) (added : RegularAdded view i p port view') :
    Scanned start i inputs unread (kept ++ [⟨name, .port port⟩]) view' := by
  have isName := nameAt_of_indexOfName scanned.indexed found
  obtain ⟨node, atNode, isKept⟩ := scanned.own
  obtain ⟨fanins, fanoutsByPort, stored, faninsAt, -, -, newFanins, -⟩ := added.defined
  have bound : i < view'.nodes.length := by
    rw [added.length]
    exact read_lt atNode
  have atNode' := List.getElem?_eq_getElem bound
  have sameControls := field_congr atNode atNode' (congrFun added.controllingFanins i)
  have ownFanins := newFanins i
  rw [if_pos rfl, field_of_getElem? atNode'] at ownFanins
  rw [field_of_getElem? atNode] at faninsAt
  have noControl : node.controllingFanins = [] := by
    by_contra some_
    obtain ⟨fanin, listed⟩ := List.exists_mem_of_ne_nil _ some_
    have before : (⟨view.nameAt fanin.nodeIndex, .controlSlot⟩ : TensorId) ∈ kept := by
      rw [isKept]
      exact List.mem_append_right _ (List.mem_map.2 ⟨fanin, listed, rfl⟩)
    have after := (List.pairwise_append.1 scanned.ordered).2.2 _ before _ List.mem_cons_self rfl
    cases after
  refine
    { indexed := added.indexed scanned.indexed
      linked := added.linked scanned.linked
      attached := added.attached scanned.attached
      summarized := added.summarized scanned.summarized
      same := scanned.same.trans added.toSameNodes
      others := ?_
      own := ⟨_, atNode', ?_⟩
      ordered := by simpa using scanned.ordered
      keptFrom := ?_
      unreadFrom := fun fanin mem => scanned.unreadFrom fanin (List.mem_cons_of_mem _ mem) }
  · intro i' ne
    rw [newFanins, if_neg ne, added.controllingFanins]
    exact scanned.others i' ne
  · rw [inputsOf_congr added.toSameNodes, isKept]
    unfold inputsOf
    rw [Option.some.inj ownFanins, sameControls, noControl, ← Option.some.inj faninsAt]
    simp [isName]
  · intro fanin mem
    rcases List.mem_append.1 mem with before | isNew
    · exact scanned.keptFrom fanin before
    · rw [List.mem_singleton.1 isNew]
      exact scanned.unreadFrom _ List.mem_cons_self

theorem Scanned.keepControl {name : String}
    (scanned : Scanned start i inputs (⟨name, .controlSlot⟩ :: unread) kept view)
    (isNew : (⟨name, .controlSlot⟩ : TensorId) ∉ kept)
    (found : view.indexOfName name = .ok p) (added : ControlAdded view i p name view') :
    Scanned start i inputs unread (kept ++ [⟨name, .controlSlot⟩]) view' := by
  have isName := nameAt_of_indexOfName scanned.indexed found
  obtain ⟨node, atNode, isKept⟩ := scanned.own
  obtain ⟨fanins, fanouts, stored, faninsAt, -, -, newFanins, -⟩ := added.defined
  have bound : i < view'.nodes.length := by
    rw [added.length]
    exact read_lt atNode
  have atNode' := List.getElem?_eq_getElem bound
  have sameFanins := field_congr atNode atNode' (congrFun added.regularFanins i)
  have ownFanins := newFanins i
  rw [if_pos rfl, field_of_getElem? atNode'] at ownFanins
  have unused : ∀ k fanin, view.control i k = some fanin → view.nameAt fanin.nodeIndex ≠ name := by
    intro k fanin atControl sameName
    apply isNew
    rw [isKept, ← sameName]
    apply List.mem_append_right
    refine List.mem_map.2 ⟨fanin, ?_, rfl⟩
    rw [MutableGraphView.control, field_of_getElem? atNode, Option.bind_some] at atControl
    exact List.mem_of_getElem? atControl
  rw [field_of_getElem? atNode] at faninsAt
  refine
    { indexed := added.indexed scanned.indexed
      linked := added.linked scanned.linked
      attached := added.attached scanned.attached
      summarized := added.summarized isName unused scanned.summarized
      same := scanned.same.trans added.toSameNodes
      others := ?_
      own := ⟨_, atNode', ?_⟩
      ordered := by simpa using scanned.ordered
      keptFrom := ?_
      unreadFrom := fun fanin mem => scanned.unreadFrom fanin (List.mem_cons_of_mem _ mem) }
  · intro i' ne
    rw [newFanins, if_neg ne, added.regularFanins]
    exact scanned.others i' ne
  · rw [inputsOf_congr added.toSameNodes, isKept]
    unfold inputsOf
    rw [Option.some.inj ownFanins, sameFanins, ← Option.some.inj faninsAt]
    simp [isName]
  · intro fanin mem
    rcases List.mem_append.1 mem with before | isLast
    · exact scanned.keptFrom fanin before
    · rw [List.mem_singleton.1 isLast]
      exact scanned.unreadFrom _ List.mem_cons_self

theorem mem_lastFirst {unread : List TensorId} {fanin : TensorId} : fanin ∈ lastFirst unread ↔ fanin ∈ unread := by
  unfold lastFirst
  cases atLast : unread.getLast? with
  | none =>
    rw [List.getLast?_eq_none_iff] at atLast
    simp [atLast]
  | some last =>
    obtain ⟨before, isAppend⟩ := List.getLast?_eq_some_iff.1 atLast
    rw [isAppend, List.dropLast_concat]
    simp [or_comm]

theorem Scanned.drop {name : String} (scanned : Scanned start i inputs (⟨name, .controlSlot⟩ :: unread) kept view) :
    Scanned start i inputs (lastFirst unread) kept view := by
  obtain ⟨keptOrdered, unreadOrdered, across⟩ := List.pairwise_append.1 scanned.ordered
  have controls : ∀ fanin ∈ unread, fanin.index = .controlSlot := fun fanin mem =>
    (List.pairwise_cons.1 unreadOrdered).1 fanin mem rfl
  refine { scanned with ordered := ?_, unreadFrom := ?_ }
  · refine List.pairwise_append.2 ⟨keptOrdered, ?_, ?_⟩
    · refine List.pairwise_of_forall_mem_list ?_
      intro before _ after mem _
      exact controls after (mem_lastFirst.1 mem)
    · intro before _ after mem _
      exact controls after (mem_lastFirst.1 mem)
  · intro fanin mem
    exact scanned.unreadFrom fanin (List.mem_cons_of_mem _ (mem_lastFirst.1 mem))

theorem length_lastFirst (unread : List TensorId) : (lastFirst unread).length = unread.length := by
  unfold lastFirst
  grind

theorem Scanned.addFanins {turns : Nat} {final : List TensorId × MutableGraphView}
    (enough : unread.length ≤ turns) (scanned : Scanned start i inputs unread kept view)
    (ran : MutableGraphView.addFanins i turns unread kept view = .ok final) :
    Scanned start i inputs [] final.1 final.2 := by
  induction turns generalizing unread kept view with
  | zero =>
    cases ran
    rwa [List.length_eq_zero_iff.1 (Nat.le_zero.1 enough)] at scanned
  | succ turns ih =>
    cases unread with
    | nil =>
      cases ran
      exact scanned
    | cons fanin unread =>
      obtain ⟨name, index⟩ := fanin
      unfold MutableGraphView.addFanins at ran
      obtain ⟨p, found, ran⟩ := bind_ok.1 ran
      rw [List.length_cons, Nat.succ_le_succ_iff] at enough
      cases index with
      | controlSlot =>
        dsimp only at ran
        by_cases repeated : (⟨name, .controlSlot⟩ : TensorId) ∈ kept
        · rw [if_pos repeated] at ran
          refine ih ?_ scanned.drop ran
          rw [length_lastFirst]
          exact enough
        · rw [if_neg repeated] at ran
          obtain ⟨linked, added, ran⟩ := bind_ok.1 ran
          exact ih enough
            (scanned.keepControl repeated found (linkControllingFanin_added added)) ran
      | port port =>
        dsimp only at ran
        obtain ⟨linked, added, ran⟩ := bind_ok.1 ran
        exact ih enough
          (scanned.keepRegular found (linkRegularFanin_added added)) ran

end Scan

section ModifyNodeDef

variable (view : MutableGraphView) (n : Nat) (change : NodeDef → NodeDef)

theorem nodeDef?_modifyNodeDef (i : Nat) : (view.modifyNodeDef n change).nodeDef? i =
    if i = n then (view.nodeDef? i).map change else view.nodeDef? i := by
  unfold nodeDef? modifyNodeDef
  dsimp only
  rw [getElem?_modify_ite]
  by_cases same : i = n
  · rw [if_pos same, if_pos same, Option.map_map, Option.map_map]
    rfl
  · rw [if_neg same, if_neg same]

theorem faninKey_modifyNodeDef (i : Nat) (port : PortId) :
    (view.modifyNodeDef n change).faninKey i port = view.faninKey i port := by
  unfold faninKey modifyNodeDef
  dsimp only
  rw [getElem?_modify_ite]
  split
  · rw [Option.map_map]
    rfl
  · rfl

variable (keepsName : ∀ def_, (change def_).name = def_.name)
include keepsName

theorem nameAt_modifyNodeDef (i : Nat) : (view.modifyNodeDef n change).nameAt i = view.nameAt i := by
  unfold nameAt
  rw [nodeDef?_modifyNodeDef]
  split
  · rw [Option.map_map]
    congr 2
    exact funext keepsName
  · rfl

theorem inputsOf_modifyNodeDef (node : MutableNodeView) :
    (view.modifyNodeDef n change).inputsOf node = view.inputsOf node := by
  unfold inputsOf
  simp only [nameAt_modifyNodeDef view n change keepsName]

variable {view} in
theorem Wired.modifyNodeDef (wired : Wired view) : Wired (view.modifyNodeDef n change) where
  linked := ⟨wired.linked.fanin, wired.linked.fanout, wired.linked.control, wired.linked.controlled⟩
  attached := ⟨wired.attached.fanin, wired.attached.control⟩
  indexed :=
    { length := by
        rw [show (view.modifyNodeDef n change).graph.length = view.graph.length from
          List.length_modify ..]
        exact wired.indexed.length
      nodeIndex := wired.indexed.nodeIndex
      names := by
        intro name i
        refine (wired.indexed.names name i).trans ?_
        rw [nodeDef?_modifyNodeDef]
        split
        · simp [keepsName]
        · rfl
      addresses := by
        have same : (view.modifyNodeDef n change).graph.map StoredNode.address =
            view.graph.map StoredNode.address := by
          apply List.ext_getElem?
          intro i
          unfold MutableGraphView.modifyNodeDef
          rw [List.getElem?_map, List.getElem?_map, getElem?_modify_ite]
          split
          · rw [Option.map_map]
            rfl
          · rfl
        rw [same]
        exact wired.indexed.addresses
      fresh := by
        intro stored mem
        obtain ⟨i, atI⟩ := List.mem_iff_getElem?.1 mem
        unfold MutableGraphView.modifyNodeDef at atI
        dsimp only at atI
        rw [getElem?_modify_ite] at atI
        split at atI
        · obtain ⟨old, atOld, rfl⟩ := Option.map_eq_some_iff.1 atI
          exact wired.indexed.fresh old (List.mem_of_getElem? atOld)
        · exact wired.indexed.fresh stored (List.mem_of_getElem? atI) }
  summarized := by
    intro node mem
    have old := wired.summarized node mem
    refine { numRegularFanouts := old.numRegularFanouts
             trimmed := old.trimmed
             faninsCount := ?_
             counted := old.counted
             controls := ?_ }
    · intro key
      rw [old.faninsCount]
      unfold faninCount
      simp only [faninKey_modifyNodeDef]
    · intro name k
      rw [old.controls]
      simp only [nameAt_modifyNodeDef view n change keepsName]

end ModifyNodeDef

/-! ## All nodes -/

/-- The nodes in `done` have their fanins, the others none yet. -/
structure Built (graph : GraphDef) (done : List Nat) (view : MutableGraphView) : Prop
    extends Wired view where
  length : view.graph.length = graph.length
  from_ : ∀ {i : Nat} {def_ : NodeDef}, view.nodeDef? i = some def_ →
    ∃ old, graph[i]? = some old ∧ def_.name = old.name ∧ ∀ fanin ∈ def_.input, fanin ∈ old.input
  inputs : ∀ i ∈ done, ∀ {node : MutableNodeView} {def_ : NodeDef}, view.nodes[i]? = some node →
    view.nodeDef? i = some def_ → def_.input = view.inputsOf node
  pending : ∀ i ∉ done, view.nodeDef? i = graph[i]? ∧
    ∀ node, view.nodes[i]? = some node → node.regularFanins = [] ∧ node.controllingFanins = []

theorem Built.addFaninsInternal {graph : GraphDef} {done : List Nat} {i : Nat}
    {view view' : MutableGraphView} (built : Built graph done view) (notDone : i ∉ done)
    (checked : ∀ def_ ∈ graph, Checked def_.name def_.input)
    (ran : view.addFaninsInternal i = .ok view') : Built graph (done ++ [i]) view' := by
  unfold MutableGraphView.addFaninsInternal at ran
  obtain ⟨stored, atStored, ran⟩ := bind_ok.1 ran
  obtain ⟨⟨kept, scannedView⟩, scannedOk, ran⟩ := bind_ok.1 ran
  rw [fetch_eq_ok] at atStored
  cases ran
  have atDef : view.nodeDef? i = some stored.nodeDef := by simp [nodeDef?, atStored]
  obtain ⟨isOriginal, empty⟩ := built.pending i notDone
  rw [atDef] at isOriginal
  have bound : i < view.nodes.length := by
    rw [built.indexed.length]
    exact read_lt atStored
  have atNode := List.getElem?_eq_getElem bound
  have begun : Scanned view i stored.nodeDef.input stored.nodeDef.input [] view :=
    { toWired := built.toWired
      same := ⟨rfl, rfl, rfl, rfl, rfl, rfl⟩
      others := fun _ _ => ⟨rfl, rfl⟩
      own := ⟨_, atNode, by simp [inputsOf, (empty _ atNode).1, (empty _ atNode).2]⟩
      ordered := (checked _ (List.mem_of_getElem? isOriginal.symm)).ordered
      keptFrom := fun fanin mem => by cases mem
      unreadFrom := fun fanin mem => mem }
  have scanned := begun.addFanins (Nat.le_refl _) scannedOk
  dsimp only at scanned
  have keepsName : ∀ def_ : NodeDef, ({ def_ with input := kept } : NodeDef).name = def_.name :=
    fun _ => rfl
  have sameDef : ∀ j, scannedView.nodeDef? j = view.nodeDef? j := by
    intro j
    unfold nodeDef?
    rw [scanned.same.graph]
  obtain ⟨ownNode, atOwn, isKept⟩ := scanned.own
  -- The fanins of the other nodes are those of `view`.
  have othersInputs : ∀ j ≠ i, ∀ node, scannedView.nodes[j]? = some node →
      ∃ old, view.nodes[j]? = some old ∧ node.regularFanins = old.regularFanins ∧
        node.controllingFanins = old.controllingFanins := by
    intro j ne node atJ
    obtain ⟨sameRegular, sameControl⟩ := scanned.others j ne
    rw [field_of_getElem? atJ] at sameRegular sameControl
    obtain ⟨old, atOld, isRegular⟩ := Option.map_eq_some_iff.1 sameRegular.symm
    rw [field_of_getElem? atOld] at sameControl
    exact ⟨old, atOld, isRegular.symm, Option.some.inj sameControl⟩
  refine
    { toWired := scanned.toWired.modifyNodeDef i _ keepsName
      length := ?_
      from_ := ?_
      inputs := ?_
      pending := ?_ }
  · rw [show (scannedView.modifyNodeDef i _).graph.length = scannedView.graph.length from
      List.length_modify .., scanned.same.graph]
    exact built.length
  · intro j def_ atJ
    rw [nodeDef?_modifyNodeDef, sameDef] at atJ
    split at atJ
    next isI =>
      rw [isI, atDef] at atJ
      cases atJ
      refine ⟨stored.nodeDef, ?_, rfl, scanned.keptFrom⟩
      rw [isI]
      exact isOriginal.symm
    next => exact built.from_ atJ
  · intro j mem node def_ atJ atDef'
    rw [inputsOf_modifyNodeDef scannedView i _ keepsName]
    rw [nodeDef?_modifyNodeDef, sameDef] at atDef'
    by_cases isI : j = i
    · rw [if_pos isI, isI, atDef] at atDef'
      cases atDef'
      have sameNode : some ownNode = some node := atOwn.symm.trans (isI ▸ atJ)
      rw [Option.some.inj sameNode] at isKept
      exact isKept
    · rw [if_neg isI] at atDef'
      obtain ⟨old, atOld, sameRegular, sameControl⟩ := othersInputs j isI node atJ
      have inDone : j ∈ done := by
        rcases List.mem_append.1 mem with before | isLast
        · exact before
        · exact absurd (List.mem_singleton.1 isLast) isI
      rw [built.inputs j inDone atOld atDef']
      unfold inputsOf
      simp only [scanned.same.nameAt, sameRegular, sameControl]
  · intro j notMember
    rw [List.mem_append, List.mem_singleton, not_or] at notMember
    obtain ⟨isPending, noFanins⟩ := built.pending j notMember.1
    constructor
    · rw [nodeDef?_modifyNodeDef, if_neg notMember.2, sameDef]
      exact isPending
    · intro node atJ
      obtain ⟨old, atOld, sameRegular, sameControl⟩ := othersInputs j notMember.2 node atJ
      rw [sameRegular, sameControl]
      exact noFanins old atOld

def unlinked (graph : GraphDef) (byName : AList fun _ : String => Nat) : MutableGraphView where
  graph := graph.zipIdx.map fun entry => ⟨entry.2, entry.1⟩
  nextAddress := graph.length
  nodes := (List.range graph.length).map fun index => { nodeIndex := index }
  nodeIndexByName := byName

section Unlinked

variable {graph : GraphDef} {byName : AList fun _ : String => Nat}

theorem unlinked_graph (i : Nat) : (unlinked graph byName).graph[i]? = (graph[i]?).map fun node => ⟨i, node⟩ := by
  simp only [unlinked, List.getElem?_map, List.getElem?_zipIdx, Option.map_map, Nat.zero_add]
  rfl

theorem unlinked_nodes (i : Nat) : (unlinked graph byName).nodes[i]? =
    if i < graph.length then some { nodeIndex := i } else none := by
  simp only [unlinked, List.getElem?_map]
  by_cases bound : i < graph.length
  · rw [if_pos bound, List.getElem?_range bound]
    rfl
  · rw [if_neg bound, List.getElem?_eq_none (by simpa using bound)]
    rfl

theorem unlinked_bind {β γ : Type} {read : MutableNodeView → β} {i : Nat} {find : β → Option γ}
    (nothing : find (read { nodeIndex := i }) = none) : ((unlinked graph byName).field read i).bind find = none := by
  unfold field
  rw [unlinked_nodes]
  split
  · exact nothing
  · rfl

theorem unlinked_built
    (names : ∀ name i, byName.lookup name = some i ↔ ∃ def_, graph[i]? = some def_ ∧ def_.name = name) :
    Built graph [] (unlinked graph byName) := by
  have nodeDefs : ∀ i, (unlinked graph byName).nodeDef? i = graph[i]? := by
    intro i
    unfold nodeDef?
    rw [unlinked_graph, Option.map_map]
    cases graph[i]? <;> rfl
  refine
    { indexed :=
        { length := by simp [unlinked]
          nodeIndex := ?_
          names := by
            intro name i
            rw [nodeDefs]
            exact names name i
          addresses := ?_
          fresh := ?_ }
      linked := ⟨?_, ?_, ?_, ?_⟩
      attached := ⟨?_, ?_⟩
      summarized := ?_
      length := by simp [unlinked]
      from_ := ?_
      inputs := fun i mem => by cases mem
      pending := ?_ }
  · intro i node atNode
    rw [unlinked_nodes] at atNode
    split at atNode
    · cases atNode
      rfl
    · cases atNode
  · have isRange : (unlinked graph byName).graph.map StoredNode.address = List.range graph.length := by
      apply List.ext_getElem?
      intro i
      rw [List.getElem?_map, unlinked_graph, Option.map_map]
      grind
    rw [isRange]
    exact List.nodup_range
  · intro stored mem
    obtain ⟨i, atI⟩ := List.mem_iff_getElem?.1 mem
    rw [unlinked_graph] at atI
    obtain ⟨node, atNode, rfl⟩ := Option.map_eq_some_iff.1 atI
    exact read_lt atNode
  · intro i k j fanin atFanin
    cases (unlinked_bind rfl).symm.trans atFanin
  · intro p port j fanout atFanout
    cases (unlinked_bind rfl).symm.trans atFanout
  · intro i k j fanin atFanin
    cases (unlinked_bind rfl).symm.trans atFanin
  · intro p j fanout atFanout
    cases (unlinked_bind rfl).symm.trans atFanout
  · intro i k fanin atFanin
    cases (unlinked_bind rfl).symm.trans atFanin
  · intro i k fanin atFanin
    cases (unlinked_bind rfl).symm.trans atFanin
  · intro node mem
    obtain ⟨i, -, rfl⟩ := List.mem_map.1 mem
    exact
      { numRegularFanouts := rfl
        trimmed := by simp
        faninsCount := fun key => by simp [faninCount]
        counted := fun key => by simp
        controls := fun name k => by simp }
  · intro i def_ atI
    rw [nodeDefs] at atI
    exact ⟨def_, atI, rfl, fun fanin mem => mem⟩
  · intro i _
    refine ⟨nodeDefs i, ?_⟩
    intro node atNode
    rw [unlinked_nodes] at atNode
    split at atNode
    · cases atNode
      exact ⟨rfl, rfl⟩
    · cases atNode

end Unlinked

theorem construct_inv {graph : GraphDef} {view : MutableGraphView} (ran : construct graph = .ok view) :
    view.Inv ∧ view.graph.length = graph.length ∧
      ∀ i def_, view.nodeDef? i = some def_ → ∃ old, graph[i]? = some old ∧ def_.name = old.name := by
  unfold construct at ran
  obtain ⟨byName, named, ran⟩ := bind_ok.1 ran
  obtain ⟨units, checkedOk, ran⟩ := bind_ok.1 ran
  have checked : ∀ def_ ∈ graph, Checked def_.name def_.input := by
    intro def_ mem
    obtain ⟨_, -, accepted⟩ := mem_result_of_mapM checkedOk mem
    exact checked_of_checkFaninsInternal accepted
  have built := foldlM_invariant (fun seen view => Built graph seen view)
    (unlinked_built (addUniqueNodes_names named)) ?_ ran
  · refine ⟨?_, built.length, ?_⟩
    · refine
        { indexed := built.indexed
          linked := built.linked
          attached := built.attached
          summarized := built.summarized
          inputs := ?_
          noSelfLoop := ?_ }
      · intro i node def_ atNode atDef
        refine built.inputs i ?_ atNode atDef
        rw [List.mem_range, ← built.length, ← built.indexed.length]
        exact read_lt atNode
      · intro i def_ atDef fanin mem
        obtain ⟨old, atOld, sameName, kept⟩ := built.from_ atDef
        rw [sameName]
        exact (checked old (List.mem_of_getElem? atOld)).noSelfLoop fanin (kept fanin mem)
    · intro i def_ atDef
      obtain ⟨old, atOld, sameName, -⟩ := built.from_ atDef
      exact ⟨old, atOld, sameName⟩
  · intro seen i rest view view' split holds stepped
    refine holds.addFaninsInternal ?_ checked stepped
    intro mem
    have nodup : (seen ++ i :: rest).Nodup := split ▸ List.nodup_range
    exact (List.nodup_append.1 nodup).2.2 i mem i List.mem_cons_self rfl

end MutableGraphView

end Itex.GraphUtils
