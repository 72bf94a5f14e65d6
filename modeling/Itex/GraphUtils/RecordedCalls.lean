import Itex.GraphUtils.LastWrite

/-!
Contract: a run of calls on one node, as recorded and as plain writes.

Owns: the calls after which the two differ.
-/

namespace Itex.GraphUtils

open Itex.Graph (Failure TensorId NodeDef)
open Itex.Lib

variable {calls : List Call} {diff : NodeViewDiff} {other own : FaninId} {session' session : Session}
  {view' : MutableGraphView} {edit : NodeEdit}

/-- The position of the regular fanin that a call is about. -/
def NodeEdit.faninIndex : NodeEdit → Option Int
  | .addOrUpdateRegularFanin index _ => some index
  | .removeRegularFanin index => some index
  | _ => none

/-- Fanin `index` was updated to another one, was not removed after that, and the last call about it
asks for the fanin that the node had. -/
def RestoredAt (original : Content) (index : Nat) (edits : List NodeEdit) : Prop :=
  ∃ own other before between after, original.regular index = some own ∧ other ≠ own ∧
    edits = before ++ .addOrUpdateRegularFanin (.ofNat index) other ::
      (between ++ .addOrUpdateRegularFanin (.ofNat index) own :: after) ∧
    .removeRegularFanin (.ofNat index) ∉ between ∧ ∀ edit ∈ after, edit.faninIndex ≠ some (.ofNat index)

namespace Content

def recorded (original : Content) (edits : List NodeEdit) : Content := edits.foldl (record original) original

def written (original : Content) (edits : List NodeEdit) : Content := edits.foldl write original

variable {original : Content}

theorem recorded_concat (edits : List NodeEdit) (edit : NodeEdit) :
    recorded original (edits ++ [edit]) = record original (recorded original edits) edit := by
  unfold recorded
  rw [List.foldl_append]
  rfl

theorem written_concat (edits : List NodeEdit) (edit : NodeEdit) :
    written original (edits ++ [edit]) = write (written original edits) edit := by
  unfold written
  rw [List.foldl_append]
  rfl

theorem write_congr {first second : Content} (controls : first.controls = second.controls)
    (attrs : first.attrs = second.attrs) (edit : NodeEdit) :
    (first.write edit).controls = (second.write edit).controls ∧
      (first.write edit).attrs = (second.write edit).attrs := by
  unfold write
  split <;> simp only [controls, attrs, setRegular, and_self]

theorem record_controls_attrs (content : Content) (edit : NodeEdit) :
    (record original content edit).controls = (content.write edit).controls ∧
      (record original content edit).attrs = (content.write edit).attrs := by
  unfold record
  split
  · split
    · exact ⟨rfl, rfl⟩
    · exact ⟨rfl, rfl⟩
  · exact ⟨rfl, rfl⟩

theorem recorded_controls_attrs (edits : List NodeEdit) :
    (recorded original edits).controls = (written original edits).controls ∧
      (recorded original edits).attrs = (written original edits).attrs := by
  induction edits using List.reverseRecOn with
  | nil => exact ⟨rfl, rfl⟩
  | append_singleton edits edit ih =>
    rw [recorded_concat, written_concat]
    have recordedAs := @record_controls_attrs original (recorded original edits) edit
    have writtenAs := write_congr ih.1 ih.2 edit
    exact ⟨recordedAs.1.trans writtenAs.1, recordedAs.2.trans writtenAs.2⟩

theorem write_regular_of_ne (content : Content) {index : Nat}
    (other : edit.faninIndex ≠ some (.ofNat index)) : (content.write edit).regular index = content.regular index := by
  unfold write
  split
  next place fanin =>
    have isOther : index ≠ place := fun same => other (by rw [same]; rfl)
    exact Function.update_of_ne isOther _ _
  next place =>
    have isOther : index ≠ place := fun same => other (by rw [same]; rfl)
    exact Function.update_of_ne isOther _ _
  all_goals rfl

theorem record_regular_of_ne (content : Content) {index : Nat} (other : edit.faninIndex ≠ some (.ofNat index)) :
    (record original content edit).regular index = content.regular index := by
  unfold record
  split
  · split
    · rfl
    · exact write_regular_of_ne content other
  · exact write_regular_of_ne content other

theorem eq_of_faninIndex {index : Nat} (isIndex : edit.faninIndex = some (.ofNat index)) :
    edit = .removeRegularFanin (.ofNat index) ∨ ∃ fanin, edit = .addOrUpdateRegularFanin (.ofNat index) fanin := by
  cases edit with
  | addOrUpdateRegularFanin place fanin =>
    cases isIndex
    exact Or.inr ⟨fanin, rfl⟩
  | removeRegularFanin place =>
    cases isIndex
    exact Or.inl rfl
  | _ => cases isIndex

theorem write_removeRegularFanin (content : Content) (index : Nat) :
    (content.write (.removeRegularFanin (.ofNat index))).regular index = none := Function.update_self _ _ _

theorem write_addOrUpdateRegularFanin (content : Content) (index : Nat) (fanin : FaninId) :
    (content.write (.addOrUpdateRegularFanin (.ofNat index) fanin)).regular index = some fanin :=
  Function.update_self _ _ _

theorem record_addOrUpdateRegularFanin (content : Content) (index : Nat) (fanin : FaninId) :
    (record original content (.addOrUpdateRegularFanin (.ofNat index) fanin)).regular index =
      if original.regular index = some fanin ∧ content.regular index ≠ none then content.regular index
      else some fanin := by
  change (if _ then content else content.write _).regular index = _
  split
  · rfl
  · exact write_addOrUpdateRegularFanin content index fanin

section Position

variable {index : Nat}

/-- The last removal of a fanin came before an update to `other`. -/
def UpdatedTo (index : Nat) (other : FaninId) (edits : List NodeEdit) : Prop :=
  ∃ before between, edits = before ++ .addOrUpdateRegularFanin (.ofNat index) other :: between ∧
    .removeRegularFanin (.ofNat index) ∉ between

theorem UpdatedTo.concat {edits : List NodeEdit}
    (updated : UpdatedTo index other edits) (notRemoval : edit ≠ .removeRegularFanin (.ofNat index)) :
    UpdatedTo index other (edits ++ [edit]) := by
  obtain ⟨before, between, split, notRemoved⟩ := updated
  refine ⟨before, between ++ [edit], by rw [split, List.append_assoc, List.cons_append], ?_⟩
  intro mem
  rcases List.mem_append.1 mem with earlier | isLast
  · exact notRemoved earlier
  · exact notRemoval (List.mem_singleton.1 isLast).symm

theorem UpdatedTo.of_concat {edits : List NodeEdit}
    (updated : UpdatedTo index other (edits ++ [edit])) : edit = .addOrUpdateRegularFanin (.ofNat index) other ∨
      UpdatedTo index other edits ∧ edit ≠ .removeRegularFanin (.ofNat index) := by
  obtain ⟨before, between, split, notRemoved⟩ := updated
  rcases List.eq_nil_or_concat' between with isNil | ⟨front, last, isConcat⟩
  · rw [isNil] at split
    exact Or.inl (List.append_inj_right' split rfl |> List.singleton_inj.1)
  · rw [isConcat] at split notRemoved
    have splitEnd : edits ++ [edit] =
        (before ++ NodeEdit.addOrUpdateRegularFanin (.ofNat index) other :: front) ++ [last] := by
      rw [split, List.append_assoc, List.cons_append]
    have isLast : edit = last := List.singleton_inj.1 (List.append_inj_right' splitEnd rfl)
    refine Or.inr ⟨⟨before, front, List.append_inj_left' splitEnd rfl, ?_⟩, ?_⟩
    · intro mem
      exact notRemoved (List.mem_append_left _ mem)
    · intro isRemoval
      apply notRemoved
      rw [← isRemoval, isLast]
      exact List.mem_append_right _ List.mem_cons_self

theorem recorded_regular_other (isOwn : original.regular index = some own) (edits : List NodeEdit) :
    (∃ other, (recorded original edits).regular index = some other ∧ other ≠ own) ↔
      ∃ other, other ≠ own ∧ UpdatedTo index other edits := by
  induction edits using List.reverseRecOn with
  | nil =>
    constructor
    · intro ⟨other, isOther, differs⟩
      exact absurd (Option.some.inj (isOther.symm.trans isOwn)) differs
    · intro ⟨other, _, before, between, split, _⟩
      exact absurd split.symm (List.append_ne_nil_of_right_ne_nil _ (List.cons_ne_nil _ _))
  | append_singleton edits edit ih =>
    rw [recorded_concat]
    by_cases isIndex : edit.faninIndex = some (.ofNat index)
    · rcases eq_of_faninIndex isIndex with isRemoval | ⟨fanin, isUpdate⟩
      · rw [isRemoval]
        constructor
        · intro ⟨other, isOther, _⟩
          exact nomatch (write_removeRegularFanin (recorded original edits) index).symm.trans isOther
        · intro ⟨other, _, updated⟩
          rcases updated.of_concat with isUpdate | ⟨_, notRemoval⟩
          · cases isUpdate
          · exact absurd rfl notRemoval
      · rw [isUpdate, record_addOrUpdateRegularFanin]
        by_cases isFanin : fanin = own
        · rw [isFanin]
          constructor
          · intro ⟨other, isOther, differs⟩
            split at isOther
            · obtain ⟨updatedTo, isUpdated⟩ := ih.1 ⟨other, isOther, differs⟩
              exact ⟨updatedTo, isUpdated.1, isUpdated.2.concat nofun⟩
            · exact absurd (Option.some.inj isOther).symm differs
          · intro ⟨other, differs, updated⟩
            rcases updated.of_concat with isUpdate | ⟨updatedBefore, _⟩
            · cases isUpdate
              exact absurd rfl differs
            · grind
        · have notOwn : ¬ (original.regular index = some fanin ∧ (recorded original edits).regular index ≠ none) :=
            fun both => isFanin (Option.some.inj (both.1.symm.trans isOwn))
          rw [if_neg notOwn]
          exact ⟨fun _ => ⟨fanin, isFanin, edits, [], rfl, List.not_mem_nil⟩, fun _ => ⟨fanin, rfl, isFanin⟩⟩
    · rw [record_regular_of_ne _ isIndex, ih]
      constructor
      · intro ⟨other, differs, updated⟩
        exact ⟨other, differs, updated.concat fun isRemoval => isIndex (by rw [isRemoval]; rfl)⟩
      · intro ⟨other, differs, updated⟩
        rcases updated.of_concat with isUpdate | ⟨updatedBefore, _⟩
        · exact absurd (by rw [isUpdate]; rfl) isIndex
        · exact ⟨other, differs, updatedBefore⟩

/-- The last call decides whether a fanin was restored. -/
theorem restoredAt_concat (isOwn : original.regular index = some own)
    {edits : List NodeEdit} : RestoredAt original index (edits ++ [edit]) ↔
      (edit = .addOrUpdateRegularFanin (.ofNat index) own ∧ ∃ other, other ≠ own ∧ UpdatedTo index other edits) ∨
        (edit.faninIndex ≠ some (.ofNat index) ∧ RestoredAt original index edits) := by
  constructor
  · intro ⟨own', other, before, between, after, isOwn', differs, split, notRemoved, noCall⟩
    cases isOwn.symm.trans isOwn'
    rcases List.eq_nil_or_concat' after with isNil | ⟨front, last, isConcat⟩
    · rw [isNil] at split
      have splitEnd : edits ++ [edit] =
          (before ++ NodeEdit.addOrUpdateRegularFanin (.ofNat index) other :: between) ++
            [NodeEdit.addOrUpdateRegularFanin (.ofNat index) own] := by
        rw [split, List.append_assoc, List.cons_append]
      exact Or.inl ⟨List.singleton_inj.1 (List.append_inj_right' splitEnd rfl), other, differs, before, between,
        List.append_inj_left' splitEnd rfl, notRemoved⟩
    · rw [isConcat] at split noCall
      have splitEnd : edits ++ [edit] = (before ++ NodeEdit.addOrUpdateRegularFanin (.ofNat index) other ::
            (between ++ NodeEdit.addOrUpdateRegularFanin (.ofNat index) own :: front)) ++ [last] := by
        rw [split]
        simp only [List.append_assoc, List.cons_append]
      have isLast : edit = last := List.singleton_inj.1 (List.append_inj_right' splitEnd rfl)
      refine Or.inr ⟨?_, own, other, before, between, front, isOwn, differs, List.append_inj_left' splitEnd rfl,
        notRemoved, fun edit mem => noCall edit (List.mem_append_left _ mem)⟩
      rw [isLast]
      exact noCall last (List.mem_append_right _ List.mem_cons_self)
  · rintro (⟨isEdit, other, differs, before, between, split, notRemoved⟩ | ⟨noIndex, restored⟩)
    · refine ⟨own, other, before, between, [], isOwn, differs, ?_, notRemoved, nofun⟩
      rw [split, isEdit, List.append_assoc, List.cons_append]
    · obtain ⟨own', other, before, between, after, isOwn', differs, split, notRemoved, noCall⟩ := restored
      refine ⟨own', other, before, between, after ++ [edit], isOwn', differs, ?_, notRemoved, ?_⟩
      · rw [split]
        simp only [List.append_assoc, List.cons_append]
      · intro call mem
        rcases List.mem_append.1 mem with earlier | isLast
        · exact noCall call earlier
        · rw [List.mem_singleton.1 isLast]
          exact noIndex

theorem not_restoredAt_nil : ¬ RestoredAt original index [] := by
  intro ⟨_, _, before, _, _, _, _, split, _⟩
  exact List.append_ne_nil_of_right_ne_nil before (List.cons_ne_nil _ _) split.symm

theorem recorded_regular_of_none (isNone : original.regular index = none) (edits : List NodeEdit) :
    (recorded original edits).regular index = (written original edits).regular index := by
  induction edits using List.reverseRecOn with
  | nil => rfl
  | append_singleton edits edit ih =>
    rw [recorded_concat, written_concat]
    by_cases isIndex : edit.faninIndex = some (.ofNat index)
    · rcases eq_of_faninIndex isIndex with isRemoval | ⟨fanin, isUpdate⟩
      · rw [isRemoval]
        exact (write_removeRegularFanin _ index).trans (write_removeRegularFanin _ index).symm
      · rw [isUpdate, record_addOrUpdateRegularFanin, write_addOrUpdateRegularFanin, isNone,
          if_neg fun both => nomatch both.1]
    · rw [record_regular_of_ne _ isIndex, write_regular_of_ne _ isIndex, ih]

theorem recorded_regular_ne_written (edits : List NodeEdit) :
    (recorded original edits).regular index ≠ (written original edits).regular index ↔
      RestoredAt original index edits := by
  cases isOwn : original.regular index with
  | none =>
    constructor
    · intro differs
      exact absurd (recorded_regular_of_none isOwn edits) differs
    · intro ⟨own, _, _, _, _, isOwn', _⟩
      exact nomatch isOwn.symm.trans isOwn'
  | some own =>
    induction edits using List.reverseRecOn with
    | nil => exact ⟨fun differs => absurd rfl differs, fun restored => absurd restored not_restoredAt_nil⟩
    | append_singleton edits edit ih =>
      rw [recorded_concat, written_concat, restoredAt_concat isOwn]
      by_cases isIndex : edit.faninIndex = some (.ofNat index)
      · rw [or_iff_left fun both => both.1 isIndex]
        rcases eq_of_faninIndex isIndex with isRemoval | ⟨fanin, isUpdate⟩
        · rw [isRemoval]
          constructor
          · intro differs
            exact absurd ((write_removeRegularFanin _ index).trans (write_removeRegularFanin _ index).symm) differs
          · intro both
            exact nomatch both.1
        · rw [isUpdate, record_addOrUpdateRegularFanin, write_addOrUpdateRegularFanin]
          by_cases isFanin : fanin = own
          · rw [isFanin, ← recorded_regular_other isOwn, and_iff_right rfl]
            cases recordedIs : (recorded original edits).regular index with
            | none => simp
            | some other => simp [isOwn]
          · grind
      · rw [record_regular_of_ne _ isIndex, write_regular_of_ne _ isIndex, ih]
        constructor
        · intro restored
          exact Or.inr ⟨isIndex, restored⟩
        · intro either
          rcases either with both | both
          · exact absurd (by rw [both.1]; rfl) isIndex
          · exact both.2

end Position

theorem recorded_eq_written (edits : List NodeEdit) :
    recorded original edits = written original edits ↔ ∀ index, ¬ RestoredAt original index edits := by
  have others := @recorded_controls_attrs original edits
  constructor
  · intro same index restored
    exact recorded_regular_ne_written edits |>.mpr restored (by rw [same])
  · intro noneRestored
    refine Content.ext ?_ others.1 others.2
    funext index
    by_contra differs
    exact noneRestored index ((recorded_regular_ne_written edits).1 differs)

end Content

namespace MutableGraphView

variable {view : MutableGraphView} {node : MutableNodeView} {nodeDef : NodeDef} {i : Nat}

theorem faninIdAt_congr {node' : MutableNodeView} (sameGraph : view'.graph = view.graph)
    (sameFanins : node'.regularFanins = node.regularFanins) (index : Nat) :
    view'.faninIdAt node' index = view.faninIdAt node index := by
  unfold faninIdAt
  rw [sameGraph, sameFanins]

theorem Inv.contentOf_regular (inv : view.Inv) (atNode : view.nodes[i]? = some node)
    (atDef : view.nodeDef? i = some nodeDef) (index : Nat) :
    (contentOf nodeDef).regular index = view.faninIdAt node index := by
  unfold contentOf faninIdAt
  dsimp only
  rw [inv.inputs atNode atDef, inputsOf, List.getElem?_append, List.length_map]
  cases found : node.regularFanins[index]? with
  | none =>
    simp_all
  | some fanin =>
    have inside : index < node.regularFanins.length := read_lt found
    have inGraph := (inv.navigable.inRange (List.mem_of_getElem? atNode)).regularFanins fanin (List.mem_of_getElem? found)
    rw [inv.indexed.length] at inGraph
    have stored := List.getElem?_eq_getElem inGraph
    rw [if_pos inside, List.getElem?_map, found]
    simp [nameAt, nodeDef?, stored]

/-- What changes read from a node of a view is what its definition says. -/
theorem Inv.isFacts (inv : view.Inv) (atNode : view.nodes[i]? = some node)
    (atDef : view.nodeDef? i = some nodeDef) : (factsOf node nodeDef).IsSound := by
  have summarized := inv.summarized node (List.mem_of_getElem? atNode)
  refine ⟨?_, ?_, ?_⟩
  · intro index beyond
    have isRegular := inv.contentOf_regular atNode atDef index
    refine isRegular.trans ?_
    unfold faninIdAt
    rw [List.getElem?_eq_none beyond]
    rfl
  · intro name
    change decide (_ ∈ nodeDef.input) = (node.controllingFaninsIndex.lookup name).isSome
    rw [Bool.eq_iff_iff, decide_eq_true_iff, Option.isSome_iff_exists, inv.inputs atNode atDef, inputsOf]
    constructor
    · intro mem
      rcases List.mem_append.1 mem with isRegular | isControl
      · obtain ⟨fanin, -, same⟩ := List.mem_map.1 isRegular
        cases same
      · obtain ⟨fanin, listed, same⟩ := List.mem_map.1 isControl
        obtain ⟨k, atK⟩ := List.mem_iff_getElem?.1 listed
        refine ⟨k, (summarized.controls name k).2 ⟨fanin, atK, ?_, congrArg TensorId.node same⟩⟩
        apply inv.attached.control
        rw [control, field_of_getElem? atNode]
        exact atK
    · rintro ⟨k, isIndex⟩
      obtain ⟨fanin, atK, -, isName⟩ := (summarized.controls name k).1 isIndex
      apply List.mem_append_right
      rw [← isName]
      exact List.mem_map_of_mem (List.mem_of_getElem? atK)
  · intro name other index isName isOther
    obtain ⟨fanin, atFanin, -, nameIs⟩ := (summarized.controls name index).1 isName
    obtain ⟨otherFanin, atOther, -, otherIs⟩ := (summarized.controls other index).1 isOther
    cases atFanin.symm.trans atOther
    exact nameIs.symm.trans otherIs

end MutableGraphView

/-! ## A session -/

def Call.editOf (i : Nat) : Call → Option NodeEdit
  | .edit index edited => if index = i then some edited else none
  | _ => none

def editsOf (i : Nat) (calls : List Call) : List NodeEdit := calls.filterMap (Call.editOf i)

/-- A call on the fanins, the attributes, the op or the device of a node of the graph. -/
def Call.keepsName : Call → Bool
  | .edit _ edited => edited.keepsName
  | _ => false

theorem editsOf_concat_self (i : Nat) (calls : List Call) (edit : NodeEdit) :
    editsOf i (calls ++ [.edit i edit]) = editsOf i calls ++ [edit] := by
  have isEdit : Call.editOf i (.edit i edit) = some edit := if_pos rfl
  unfold editsOf
  rw [List.filterMap_append, List.filterMap_cons_some isEdit, List.filterMap_nil]

theorem editsOf_concat_of_ne {i index : Nat} (other : i ≠ index) (calls : List Call) (edit : NodeEdit) :
    editsOf i (calls ++ [.edit index edit]) = editsOf i calls := by
  have notEdit : Call.editOf i (.edit index edit) = none := if_neg other.symm
  unfold editsOf
  rw [List.filterMap_append, List.filterMap_cons_none notEdit, List.filterMap_nil, List.append_nil]

/-- What the changes of a node record of its calls. -/
structure Records (node : MutableNodeView) (nodeDef : NodeDef) (edits : List NodeEdit) (diff : NodeViewDiff) : Prop where
  nodeIndex : diff.nodeIndex = node.nodeIndex
  name : diff.name = none
  sound : diff.Sound (factsOf node nodeDef)
  content : diff.content (factsOf node nodeDef) = Content.recorded (contentOf nodeDef) edits

/-- A node after some calls: its changes, or none where the calls did nothing. -/
inductive Session.Recorded (session : Session) (node : MutableNodeView) (nodeDef : NodeDef) (edits : List NodeEdit) :
    Option Nat → Prop where
  | unchanged (content : Content.recorded (contentOf nodeDef) edits = contentOf nodeDef) :
      Recorded session node nodeDef edits none
  | changed {updateIndex : Nat} {diff : NodeViewDiff} (atUpdate : session.mutation.updatedNodes[updateIndex]? = some diff)
      (records : Records node nodeDef edits diff) : Recorded session node nodeDef edits (some updateIndex)

structure Session.Recording (view : MutableGraphView) (calls : List Call) (session : Session) : Prop where
  removedNodes : session.mutation.removedNodes = []
  newNodes : session.mutation.newNodes = []
  graph : session.view.graph = view.graph
  nodeIndexByName : session.view.nodeIndexByName = view.nodeIndexByName
  length : session.view.nodes.length = view.nodes.length
  nodes : ∀ {i : Nat} {node : MutableNodeView} {nodeDef : NodeDef}, view.nodes[i]? = some node →
    view.nodeDef? i = some nodeDef → ∃ updateIndex,
      session.view.nodes[i]? = some { node with updateIndex := updateIndex } ∧
      session.Recorded node nodeDef (editsOf i calls) updateIndex
  /-- Each change is that of one node. -/
  updates : ∀ {updateIndex : Nat} {diff : NodeViewDiff}, session.mutation.updatedNodes[updateIndex]? = some diff →
    session.view.field (·.updateIndex) diff.nodeIndex = some (some updateIndex)

section Sessions

open MutableGraphView (fetch_eq_ok length_modifyNode field_of_getElem? field_modifyNode_same faninIdAt_congr)

variable {view : MutableGraphView}

theorem NodeEdit.mutate_node {edit : NodeEdit} (keepsName : edit.keepsName = true) (node : MutableNodeView)
    (nodeDef : NodeDef) (diff : NodeViewDiff) : (edit.mutate view node nodeDef diff).1.nodeIndex = diff.nodeIndex ∧
      (edit.mutate view node nodeDef diff).1.name = diff.name := by
  cases edit with
  | updateName name => cases keepsName
  | addOrUpdateRegularFanin index fanin =>
    cases index with
    | negSucc index => exact ⟨rfl, rfl⟩
    | ofNat index =>
      unfold mutate NodeViewDiff.addOrUpdateRegularFanin
      dsimp only
      split_ifs <;> exact ⟨rfl, rfl⟩
  | removeRegularFanin index =>
    cases index with
    | negSucc index => exact ⟨rfl, rfl⟩
    | ofNat index =>
      unfold mutate NodeViewDiff.removeRegularFanin
      dsimp only
      split
      · exact ⟨rfl, rfl⟩
      · split <;> exact ⟨rfl, rfl⟩
  | addControllingFanin name =>
    unfold mutate
    dsimp only
    split <;> exact ⟨rfl, rfl⟩
  | removeControllingFanin name =>
    unfold mutate
    dsimp only
    split <;> exact ⟨rfl, rfl⟩
  | removeNodeAttr name =>
    unfold mutate
    dsimp only
    split <;> exact ⟨rfl, rfl⟩
  | _ => exact ⟨rfl, rfl⟩

theorem Session.Recording.start (unmarked : ∀ node ∈ view.nodes, node.updateIndex = none) :
    Session.Recording view [] ⟨view, {}⟩ where
  removedNodes := rfl
  newNodes := rfl
  graph := rfl
  nodeIndexByName := rfl
  length := rfl
  nodes := by
    intro i node nodeDef atNode atDef
    refine ⟨none, ?_, .unchanged rfl⟩
    rw [atNode, ← unmarked node (List.mem_of_getElem? atNode)]
  updates := nofun

theorem nodes_modifyNode (session : Session) (index : Nat) (change : MutableNodeView → MutableNodeView) (i : Nat) :
    (session.view.modifyNode index change).nodes[i]? =
      if i = index then (session.view.nodes[i]?).map change else session.view.nodes[i]? := by
  unfold MutableGraphView.modifyNode
  dsimp only
  exact getElem?_modify_ite ..

theorem Session.Recorded.mono {node : MutableNodeView} {nodeDef : NodeDef}
    {edits : List NodeEdit} {updateIndex : Option Nat} (recorded : session.Recorded node nodeDef edits updateIndex)
    (kept : ∀ place diff, updateIndex = some place → session.mutation.updatedNodes[place]? = some diff →
      session'.mutation.updatedNodes[place]? = some diff) : session'.Recorded node nodeDef edits updateIndex := by
  cases recorded with
  | unchanged content => exact .unchanged content
  | changed atUpdate records => exact .changed (kept _ _ rfl atUpdate) records

theorem Session.Recorded.nodeIndex {node : MutableNodeView} {nodeDef : NodeDef}
    {edits : List NodeEdit} {place : Nat}
    (recorded : session.Recorded node nodeDef edits (some place))
    (atPlace : session.mutation.updatedNodes[place]? = some diff) : diff.nodeIndex = node.nodeIndex := by
  cases recorded with
  | changed atUpdate records =>
    cases atPlace.symm.trans atUpdate
    exact records.nodeIndex

section Step

variable (inv : view.Inv) {i : Nat} {node : MutableNodeView} {nodeDef : NodeDef} {edits : List NodeEdit}
  (atNode : view.nodes[i]? = some node) (atDef : view.nodeDef? i = some nodeDef)
include inv atNode atDef

theorem Records.fresh (content : Content.recorded (contentOf nodeDef) edits = contentOf nodeDef) :
    Records node nodeDef edits { nodeIndex := node.nodeIndex } where
  nodeIndex := rfl
  name := rfl
  sound := NodeViewDiff.sound_empty _ _
  content := (NodeViewDiff.content_empty (inv.isFacts atNode atDef) _).trans content.symm

theorem Records.mutate (records : Records node nodeDef edits diff)
    (keepsName : edit.keepsName = true) (sameGraph : view'.graph = view.graph)
    (updateIndex : Option Nat) :
    Records node nodeDef (edits ++ [edit])
      (edit.mutate view' { node with updateIndex := updateIndex } nodeDef diff).1 := by
  have ofNode := inv.isFacts atNode atDef
  have isFacts : (factsOf { node with updateIndex := updateIndex } nodeDef).IsSound := ofNode
  have recorded := @NodeEdit.mutate_records view' { node with updateIndex := updateIndex } nodeDef edit diff keepsName
    isFacts
    (fun index _ => (faninIdAt_congr sameGraph rfl index).trans (inv.contentOf_regular atNode atDef index).symm)
    records.sound
  have sameNode := @NodeEdit.mutate_node view' edit keepsName { node with updateIndex := updateIndex } nodeDef diff
  refine ⟨sameNode.1.trans records.nodeIndex, sameNode.2.trans records.name, recorded.1, recorded.2.trans ?_⟩
  rw [Content.recorded_concat, ← records.content]
  rfl

end Step

theorem Session.Recording.addMutation (inv : view.Inv)
    (recording : Session.Recording view calls session) {index : Nat} (keepsName : edit.keepsName = true)
    (ran : session.addMutation index edit = .ok session') :
    Session.Recording view (calls ++ [.edit index edit]) session' := by
  unfold Session.addMutation at ran
  obtain ⟨node', atNode', ran⟩ := bind_ok.1 ran
  obtain ⟨stored, atStored, ran⟩ := bind_ok.1 ran
  rw [fetch_eq_ok] at atNode' atStored
  have bound : index < view.nodes.length := recording.length ▸ read_lt atNode'
  have atNode : view.nodes[index]? = some view.nodes[index] := List.getElem?_eq_getElem bound
  obtain ⟨nodeDef, atDef⟩ := inv.indexed.nodeDef? bound
  obtain ⟨updateIndex, atSession, recorded⟩ := recording.nodes atNode atDef
  cases atNode'.symm.trans atSession
  have isIndex : view.nodes[index].nodeIndex = index := inv.indexed.nodeIndex atNode
  have isDef : stored.nodeDef = nodeDef := by
    dsimp only at atStored
    rw [isIndex, recording.graph] at atStored
    unfold MutableGraphView.nodeDef? at atDef
    rw [atStored] at atDef
    exact Option.some.inj atDef
  rw [isDef] at ran
  have others : ∀ {i : Nat}, i ≠ index → editsOf i (calls ++ [.edit index edit]) = editsOf i calls :=
    fun other => editsOf_concat_of_ne other calls edit
  cases recorded with
  | unchanged content =>
    have records := (Records.fresh inv atNode atDef content).mutate inv atNode atDef keepsName recording.graph none
    dsimp only at ran
    split at ran
    next mutates =>
      cases ran
      refine ⟨recording.removedNodes, recording.newNodes, recording.graph, recording.nodeIndexByName, ?_, ?_, ?_⟩
      · rw [length_modifyNode]
        exact recording.length
      · intro i node nodeDef' atI atDefI
        obtain ⟨updateIndex, atSessionI, recordedI⟩ := recording.nodes atI atDefI
        by_cases isI : i = index
        · rw [isI] at atI atDefI atSessionI ⊢
          cases atNode.symm.trans atI
          cases atDef.symm.trans atDefI
          refine ⟨some session.mutation.updatedNodes.length, ?_, .changed (List.getElem?_concat_length ..) ?_⟩
          · rw [nodes_modifyNode, if_pos rfl, atSession]
            rfl
          · rw [editsOf_concat_self]
            exact records
        · refine ⟨updateIndex, ?_, ?_⟩
          · rw [nodes_modifyNode, if_neg isI]
            exact atSessionI
          · rw [others isI]
            exact recordedI.mono fun _ _ _ found =>
              (List.getElem?_append_left (read_lt found)).trans found
      · intro updateIndex diff atUpdate
        unfold MutableGraphView.field
        rw [nodes_modifyNode]
        rcases Nat.lt_or_ge updateIndex session.mutation.updatedNodes.length with earlier | last
        · have marked := recording.updates ((List.getElem?_append_left earlier).symm.trans atUpdate)
          have isOther : diff.nodeIndex ≠ index := by
            intro isIndex'
            rw [isIndex', field_of_getElem? atSession] at marked
            cases marked
          rw [if_neg isOther]
          exact marked
        · rw [List.getElem?_append_right last] at atUpdate
          obtain ⟨isLast, isDiff⟩ := List.getElem?_eq_some_iff.1 atUpdate
          have isPlace : updateIndex = session.mutation.updatedNodes.length := by
            simp only [List.length_singleton] at isLast
            omega
          rw [List.getElem_singleton] at isDiff
          rw [← isDiff, records.nodeIndex, isIndex, if_pos rfl, atSession, isPlace]
          rfl
    next idle =>
      cases ran
      refine ⟨recording.removedNodes, recording.newNodes, recording.graph, recording.nodeIndexByName,
        recording.length, ?_, recording.updates⟩
      intro i node nodeDef' atI atDefI
      by_cases isI : i = index
      · rw [isI] at atI atDefI ⊢
        cases atNode.symm.trans atI
        cases atDef.symm.trans atDefI
        refine ⟨none, atSession, .unchanged ?_⟩
        rw [editsOf_concat_self, ← records.content]
        have fresh := Records.fresh inv atNode atDef content
        exact (NodeEdit.mutate_idle (Bool.not_eq_true _ ▸ idle)).trans (fresh.content.trans content)
      · rw [others isI]
        exact recording.nodes atI atDefI
  | @changed updateIndex diff atUpdate records =>
    dsimp only at ran
    rw [recording.removedNodes, if_neg List.not_mem_nil] at ran
    obtain ⟨fetched, isFetched, ran⟩ := bind_ok.1 ran
    rw [fetch_eq_ok, atUpdate] at isFetched
    cases isFetched
    cases ran
    have mutated := records.mutate inv atNode atDef keepsName recording.graph (some updateIndex)
    have nodeIndexKept : ∀ (place : Nat) (diff' : NodeViewDiff), (session.mutation.updatedNodes.modify updateIndex fun _ =>
        (edit.mutate session.view { view.nodes[index] with updateIndex := some updateIndex } nodeDef diff).1)[place]? =
          some diff' → ∃ old, session.mutation.updatedNodes[place]? = some old ∧ old.nodeIndex = diff'.nodeIndex := by
      intro place diff' atPlace
      rw [getElem?_modify_ite] at atPlace
      split at atPlace
      next isUpdate =>
        rw [isUpdate, atUpdate] at atPlace
        cases atPlace
        exact ⟨diff, isUpdate ▸ atUpdate, records.nodeIndex.trans mutated.nodeIndex.symm⟩
      next => exact ⟨diff', atPlace, rfl⟩
    refine ⟨recording.removedNodes, recording.newNodes, recording.graph, recording.nodeIndexByName,
      recording.length, ?_, ?_⟩
    · intro i node nodeDef' atI atDefI
      by_cases isI : i = index
      · rw [isI] at atI atDefI ⊢
        cases atNode.symm.trans atI
        cases atDef.symm.trans atDefI
        refine ⟨some updateIndex, atSession, .changed ?_ (editsOf_concat_self index calls edit ▸ mutated)⟩
        exact (getElem?_modify_ite ..).trans ((if_pos rfl).trans (by rw [atUpdate]; rfl))
      · obtain ⟨updateIndexI, atSessionI, recordedI⟩ := recording.nodes atI atDefI
        rw [others isI]
        refine ⟨updateIndexI, atSessionI, recordedI.mono ?_⟩
        intro place diff' isPlace found
        have isOther : place ≠ updateIndex := by
          intro isUpdate
          rw [isPlace] at recordedI
          have sameNode := recordedI.nodeIndex found
          rw [isUpdate, atUpdate] at found
          cases found
          rw [records.nodeIndex, isIndex, inv.indexed.nodeIndex atI] at sameNode
          exact isI sameNode.symm
        exact (getElem?_modify_ite ..).trans ((if_neg isOther).trans found)
    · intro place diff' atPlace
      obtain ⟨old, atOld, sameNode⟩ := nodeIndexKept place diff' atPlace
      rw [← sameNode]
      exact recording.updates atOld

theorem Session.calls_recording (inv : view.Inv) (unmarked : ∀ node ∈ view.nodes, node.updateIndex = none)
    (keepsName : ∀ call ∈ calls, call.keepsName = true)
    (ran : Session.calls ⟨view, {}⟩ calls = .ok session) : Session.Recording view calls session := by
  refine foldlM_invariant (fun seen reached => Session.Recording view seen reached) (.start unmarked) ?_ ran
  intro seen call rest before after split recording stepped
  have keeps := keepsName call (split ▸ List.mem_append_right _ List.mem_cons_self)
  cases call with
  | edit index edit => exact recording.addMutation inv keeps stepped
  | _ => cases keeps

end Sessions

end Itex.GraphUtils
