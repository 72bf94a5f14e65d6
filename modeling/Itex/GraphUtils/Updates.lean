import Itex.GraphUtils.RecordedCalls
import Itex.GraphUtils.Additions

/-!
Contract: `Mutation::Apply` of changes to nodes that keep their names.

Owns: what one updated node becomes, and that no other node changes.
-/

namespace Itex.GraphUtils

open Itex.Graph (Failure AttrMap AttrValue TensorId NodeDef)
open Itex.Lib

variable {faninIndex k : Nat} {indices : List Nat} {name : String} {state : MutableGraphView × Nat × Nat}

section Vectors

variable {α : Type}

theorem swapPop_concat (front : List α) (last : α) (index : Nat) :
    swapPop (front ++ [last]) index = front.set index last := by
  unfold swapPop
  rw [List.getLast?_concat]
  dsimp only
  rw [List.set_append]
  split
  · exact List.dropLast_concat
  next beyond =>
    rw [List.set_eq_of_length_le (Nat.le_of_not_lt beyond)]
    have single : ([last].set (index - front.length) last) = [last] := by
      cases index - front.length <;> rfl
    rw [single, List.dropLast_concat]

theorem mem_swapPop {elements : List α} {index : Nat} (inside : index < elements.length) {removed : List Nat}
    (below : ∀ place ∈ removed, place < index) (element : α) :
    (∃ place, (swapPop elements index)[place]? = some element ∧ place ∉ removed) ↔
      ∃ place, elements[place]? = some element ∧ place ∉ index :: removed := by
  obtain ⟨front, last, isConcat⟩ : ∃ front last, elements = front ++ [last] := by
    rcases List.eq_nil_or_concat' elements with isNil | concat
    · rw [isNil] at inside
      cases inside
    · exact concat
  rw [isConcat] at inside ⊢
  rw [List.length_append, List.length_singleton] at inside
  rw [swapPop_concat]
  constructor
  · intro ⟨place, atPlace, kept⟩
    rw [List.getElem?_set] at atPlace
    by_cases isIndex : index = place
    · rw [if_pos isIndex] at atPlace
      split at atPlace
      next inFront =>
        refine ⟨front.length, ?_, ?_⟩
        · rw [← atPlace]
          exact List.getElem?_concat_length ..
        · intro mem
          rcases List.mem_cons.1 mem with isPlace | later
          · omega
          · have := below _ later
            omega
      next => cases atPlace
    · grind
  · intro ⟨place, atPlace, kept⟩
    have notIndex : place ≠ index := fun same => kept (same ▸ List.mem_cons_self)
    have notRemoved : place ∉ removed := fun later => kept (List.mem_cons_of_mem _ later)
    by_cases inFront : place < front.length
    · refine ⟨place, ?_, notRemoved⟩
      rw [List.getElem?_set_ne notIndex.symm]
      rw [List.getElem?_append_left inFront] at atPlace
      exact atPlace
    · have isLast : place = front.length := by
        have := read_lt atPlace
        rw [List.length_append, List.length_singleton] at this
        omega
      rw [isLast, List.getElem?_concat_length] at atPlace
      cases atPlace
      have inPlace : index < front.length := by omega
      refine ⟨index, ?_, fun later => Nat.lt_irrefl _ (below _ later)⟩
      rw [List.getElem?_set_self inPlace]

theorem length_swapPop (elements : List α) (index : Nat) : (swapPop elements index).length = elements.length - 1 := by
  rcases List.eq_nil_or_concat' elements with isNil | ⟨front, last, isConcat⟩
  · rw [isNil]
    rfl
  · rw [isConcat, swapPop_concat, List.length_set, List.length_append]
    rfl

theorem mem_foldl_swapPop (descends : indices.Pairwise (· > ·)) :
    ∀ {elements : List α}, (∀ index ∈ indices, index < elements.length) → ∀ element,
      (element ∈ indices.foldl swapPop elements ↔ ∃ place, elements[place]? = some element ∧ place ∉ indices) := by
  induction indices with
  | nil =>
    intro elements _ element
    rw [List.foldl_nil, List.mem_iff_getElem?]
    simp
  | cons index rest ih =>
    intro elements inside element
    obtain ⟨below, restDescends⟩ := List.pairwise_cons.1 descends
    have isInside := inside index List.mem_cons_self
    rw [List.foldl_cons, ← mem_swapPop isInside below]
    apply ih restDescends
    intro place mem
    have := below place mem
    rw [length_swapPop]
    omega

theorem getElem?_foldl_set (entries : List (Nat × α))
    (ascends : entries.Pairwise fun first second => first.1 < second.1) : ∀ (elements : List α) (index : Nat),
      (entries.foldl (fun reached entry => reached.set entry.1 entry.2) elements)[index]? =
        if index < elements.length then (entries.lookup index).or elements[index]? else none := by
  induction entries with
  | nil =>
    intro elements index
    rw [List.foldl_nil, List.lookup_nil, Option.none_or]
    split
    · rfl
    next beyond => exact List.getElem?_eq_none (Nat.le_of_not_lt beyond)
  | cons entry rest ih =>
    intro elements index
    obtain ⟨below, restAscends⟩ := List.pairwise_cons.1 ascends
    grind

theorem length_foldl_set (entries : List (Nat × α)) (elements : List α) :
    (entries.foldl (fun reached entry => reached.set entry.1 entry.2) elements).length = elements.length := by
  induction entries generalizing elements with
  | nil => rfl
  | cons entry rest ih => rw [List.foldl_cons, ih, List.length_set]

end Vectors

theorem lookup_foldl_erase (names : List String) :
    ∀ (attr : AttrMap) (name : String), (names.foldl (fun attrs name => attrs.erase name) attr).lookup name =
      if name ∈ names then none else attr.lookup name := by
  induction names with
  | nil =>
    intro attr name
    rw [if_neg List.not_mem_nil]
    rfl
  | cons head rest ih =>
    intro attr name
    rw [List.foldl_cons, ih]
    by_cases later : name ∈ rest
    · rw [if_pos later, if_pos (List.mem_cons_of_mem _ later)]
    · rw [if_neg later]
      by_cases isHead : name = head
      · rw [isHead, AList.lookup_erase, if_pos List.mem_cons_self]
      · rw [AList.lookup_erase_ne isHead, if_neg (List.not_mem_cons_of_ne_of_not_mem isHead later)]

theorem lookup_foldl_insert {entries : List (Sigma fun _ : String => AttrValue)} (nodup : entries.NodupKeys) :
    ∀ (attr : AttrMap) (name : String),
      (entries.foldl (fun attrs entry => attrs.insert entry.1 entry.2) attr).lookup name =
        (entries.dlookup name).or (attr.lookup name) := by
  induction entries with
  | nil =>
    intro attr name
    rfl
  | cons entry rest ih =>
    intro attr name
    rw [List.foldl_cons, ih (List.nodupKeys_of_nodupKeys_cons nodup)]
    by_cases isEntry : name = entry.1
    · have notLater : rest.dlookup name = none := by
        rw [isEntry]
        exact List.dlookup_eq_none.2 (List.notMem_keys_of_nodupKeys_cons nodup)
      rw [notLater, Option.none_or, isEntry, AList.lookup_insert, List.dlookup_cons_eq]
      rfl
    · rw [AList.lookup_insert_ne isEntry, List.dlookup_cons_ne _ _ isEntry]

theorem lookup_processedAttrs (diff : NodeViewDiff) (attr : AttrMap) (name : String) :
    (Session.processedAttrs diff attr).lookup name = match diff.attrsToAdd.lookup name with
      | some value => some value
      | none => if name ∈ diff.attrsToRemove then none else attr.lookup name := by
  unfold Session.processedAttrs AList.foldl
  rw [lookup_foldl_insert diff.attrsToAdd.nodupKeys, lookup_foldl_erase]
  change (diff.attrsToAdd.lookup name).or _ = _
  cases diff.attrsToAdd.lookup name <;> rfl

/-! ## Shapes -/

/-- What an update of a node changes: its definition, and how many fanins its view has. -/
@[ext] structure Shape where
  nodeDef : NodeDef
  regular : Nat
  controlling : Nat

namespace MutableGraphView

def shapeAt (view : MutableGraphView) (i : Nat) : Option Shape :=
  (view.nodes[i]?).bind fun node =>
    (view.nodeDef? i).map fun nodeDef => ⟨nodeDef, node.regularFanins.length, node.controllingFanins.length⟩

/-- Node `i` has a new shape, and no other node has. -/
structure Reshaped (view : MutableGraphView) (i : Nat) (shape : Shape) (view' : MutableGraphView) : Prop where
  here : view'.shapeAt i = some shape
  others : ∀ j ≠ i, view'.shapeAt j = view.shapeAt j

section Shapes

variable {view view' view'' : MutableGraphView} {i : Nat} {shape shape' : Shape}

theorem Reshaped.refl (atShape : view.shapeAt i = some shape) : Reshaped view i shape view := ⟨atShape, fun _ _ => rfl⟩

theorem Reshaped.trans (first : Reshaped view i shape view') (second : Reshaped view' i shape' view'') :
    Reshaped view i shape' view'' :=
  ⟨second.here, fun j other => (second.others j other).trans (first.others j other)⟩

theorem shapeAt_eq_some : view.shapeAt i = some shape ↔ ∃ node, view.nodes[i]? = some node ∧
    view.nodeDef? i = some shape.nodeDef ∧ node.regularFanins.length = shape.regular ∧
    node.controllingFanins.length = shape.controlling := by
  unfold shapeAt
  rw [Option.bind_eq_some_iff]
  constructor
  · intro ⟨node, atNode, isShape⟩
    obtain ⟨nodeDef, atDef, same⟩ := Option.map_eq_some_iff.1 isShape
    rw [← same]
    exact ⟨node, atNode, atDef, rfl, rfl⟩
  · intro ⟨node, atNode, atDef, regular, controlling⟩
    refine ⟨node, atNode, ?_⟩
    rw [atDef, regular, controlling]
    rfl

theorem shapeAt_modifyNode (view : MutableGraphView) (n : Nat) (change : MutableNodeView → MutableNodeView)
    (regular controlling : Nat → Nat)
    (resizes : ∀ node, (change node).regularFanins.length = regular node.regularFanins.length ∧
      (change node).controllingFanins.length = controlling node.controllingFanins.length) (j : Nat) :
    (view.modifyNode n change).shapeAt j = if j = n then
      (view.shapeAt j).map fun shape => ⟨shape.nodeDef, regular shape.regular, controlling shape.controlling⟩
      else view.shapeAt j := by
  unfold shapeAt modifyNode
  dsimp only
  rw [getElem?_modify_ite]
  by_cases isNode : j = n
  · rw [if_pos isNode, if_pos isNode]
    cases view.nodes[j]? with
    | none => rfl
    | some node =>
      rw [Option.map_some, Option.bind_some, Option.bind_some, Option.map_map]
      change Option.map _ (view.nodeDef? j) = _
      congr 1
      funext nodeDef
      exact Shape.ext rfl (resizes node).1 (resizes node).2
  · rw [if_neg isNode, if_neg isNode]
    rfl

theorem shapeAt_modifyNode_same (view : MutableGraphView) (n : Nat) {change : MutableNodeView → MutableNodeView}
    (keeps : ∀ node, (change node).regularFanins.length = node.regularFanins.length ∧
      (change node).controllingFanins.length = node.controllingFanins.length) (j : Nat) :
    (view.modifyNode n change).shapeAt j = view.shapeAt j := by
  rw [shapeAt_modifyNode view n change id id keeps]
  split
  · cases view.shapeAt j <;> rfl
  · rfl

theorem shapeAt_modifyNodeDef (view : MutableGraphView) (n : Nat) (change : NodeDef → NodeDef) (j : Nat) :
    (view.modifyNodeDef n change).shapeAt j =
      if j = n then (view.shapeAt j).map fun shape => { shape with nodeDef := change shape.nodeDef }
      else view.shapeAt j := by
  unfold shapeAt
  rw [nodeDef?_modifyNodeDef]
  by_cases isNode : j = n
  · rw [if_pos isNode, if_pos isNode]
    change (view.nodes[j]?).bind _ = _
    cases view.nodes[j]? with
    | none => rfl
    | some node =>
      rw [Option.bind_some, Option.bind_some, Option.map_map, Option.map_map]
      rfl
  · rw [if_neg isNode, if_neg isNode]
    rfl

theorem Rewired.shapeAt (rewired : Rewired view view') (j : Nat) : view'.shapeAt j = view.shapeAt j := by
  induction rewired with
  | refl => rfl
  | modifyNode before n keeps ih =>
    rw [shapeAt_modifyNode_same _ n fun node => ⟨keeps.regular node, keeps.controlling node⟩, ih]

theorem Rewired.reshaped (rewired : Rewired view view') (atShape : view.shapeAt i = some shape) :
    Reshaped view i shape view' :=
  ⟨(rewired.shapeAt i).trans atShape, fun j _ => rewired.shapeAt j⟩

theorem Reshaped.modifyNodeDef (atShape : view.shapeAt i = some shape) (change : NodeDef → NodeDef) :
    Reshaped view i { shape with nodeDef := change shape.nodeDef } (view.modifyNodeDef i change) where
  here := by
    rw [shapeAt_modifyNodeDef, if_pos rfl, atShape]
    rfl
  others j other := by rw [shapeAt_modifyNodeDef, if_neg other]

theorem Reshaped.modifyNode (atShape : view.shapeAt i = some shape) (change : MutableNodeView → MutableNodeView)
    (regular controlling : Nat → Nat)
    (resizes : ∀ node, (change node).regularFanins.length = regular node.regularFanins.length ∧
      (change node).controllingFanins.length = controlling node.controllingFanins.length) :
    Reshaped view i ⟨shape.nodeDef, regular shape.regular, controlling shape.controlling⟩
      (view.modifyNode i change) where
  here := by
    rw [shapeAt_modifyNode view i change regular controlling resizes, if_pos rfl, atShape]
    rfl
  others j other := by rw [shapeAt_modifyNode view i change regular controlling resizes, if_neg other]

theorem linked_reshaped {change change' : MutableNodeView → MutableNodeView}
    (atShape : view.shapeAt i = some shape) (keeps : KeepsPlace change) (regular controlling : Nat → Nat)
    (resizes : ∀ node, (change' node).regularFanins.length = regular node.regularFanins.length ∧
      (change' node).controllingFanins.length = controlling node.controllingFanins.length) :
    Reshaped view i ⟨shape.nodeDef, regular shape.regular, controlling shape.controlling⟩
      ((view.modifyNode faninIndex change).modifyNode i change') := by
  have linked : Reshaped view i shape (view.modifyNode faninIndex change) :=
    (Rewired.refl.modifyNode faninIndex keeps).reshaped atShape
  exact linked.trans (Reshaped.modifyNode linked.here _ regular controlling resizes)

theorem linkRegularFanin_reshaped {port : Nat} (atShape : view.shapeAt i = some shape)
    (ran : view.linkRegularFanin i faninIndex port = .ok view') :
    Reshaped view i { shape with regular := shape.regular + 1 } view' := by
  unfold linkRegularFanin at ran
  obtain ⟨node, -, ran⟩ := bind_ok.1 ran
  obtain ⟨faninNode, -, ran⟩ := bind_ok.1 ran
  obtain ⟨faninDef, -, ran⟩ := bind_ok.1 ran
  cases ran
  refine linked_reshaped atShape ?_ (· + 1) id ?_
  · constructor <;> exact fun _ => rfl
  · exact fun node => ⟨List.length_append, rfl⟩

theorem linkControllingFanin_reshaped (atShape : view.shapeAt i = some shape)
    (ran : view.linkControllingFanin i faninIndex name = .ok view') :
    Reshaped view i { shape with controlling := shape.controlling + 1 } view' := by
  unfold linkControllingFanin at ran
  obtain ⟨node, -, ran⟩ := bind_ok.1 ran
  obtain ⟨faninNode, -, ran⟩ := bind_ok.1 ran
  obtain ⟨faninDef, -, ran⟩ := bind_ok.1 ran
  cases ran
  refine linked_reshaped atShape ?_ id (· + 1) ?_
  · constructor <;> exact fun _ => rfl
  · exact fun node => ⟨rfl, List.length_append⟩

theorem updateRegularFaninInternal_rewired {fanin : FaninId}
    (ran : view.updateRegularFaninInternal i k fanin = .ok view') : Rewired view view' := by
  unfold updateRegularFaninInternal at ran
  obtain ⟨removed, isRemoved, ran⟩ := bind_ok.1 ran
  obtain ⟨faninIndex, -, ran⟩ := bind_ok.1 ran
  obtain ⟨faninNode, -, ran⟩ := bind_ok.1 ran
  obtain ⟨stored, -, ran⟩ := bind_ok.1 ran
  cases ran
  refine ((removeRegularFaninFanoutInternal_rewired isRemoved).modifyNode _ ?_).modifyNode _ ?_
  · constructor <;> exact fun _ => rfl
  · exact ⟨fun _ => rfl, fun _ => rfl, fun _ => List.length_set, fun _ => rfl⟩

end Shapes

end MutableGraphView

/-! ## Fanins by name -/

def inputOf (fanins : List FaninId) (controls : List String) : List TensorId :=
  fanins.map FaninId.tensorId ++ controls.map fun name => ⟨name, .controlSlot⟩

def Shape.of (nodeDef : NodeDef) (fanins : List FaninId) (controls : List String) : Shape where
  nodeDef := { nodeDef with input := inputOf fanins controls }
  regular := fanins.length
  controlling := controls.length

theorem contentOf_inputOf {nodeDef : NodeDef} {fanins : List FaninId} {controls : List String}
    (isInput : nodeDef.input = inputOf fanins controls) : (contentOf nodeDef).regular = (fun index => fanins[index]?) ∧
      (contentOf nodeDef).controls = fun name => decide (name ∈ controls) := by
  unfold contentOf
  dsimp only
  rw [isInput, inputOf]
  constructor
  · funext index
    rw [List.getElem?_append, List.length_map, List.getElem?_map, List.getElem?_map]
    by_cases inside : index < fanins.length
    · rw [if_pos inside, List.getElem?_eq_getElem inside]
      rfl
    · rw [if_neg inside, List.getElem?_eq_none (Nat.le_of_not_lt inside)]
      cases controls[index - fanins.length]? <;> rfl
  · funext name
    rw [decide_eq_decide]
    constructor
    · intro mem
      rcases List.mem_append.1 mem with isRegular | isControl
      · obtain ⟨fanin, -, same⟩ := List.mem_map.1 isRegular
        cases same
      · obtain ⟨control, listed, same⟩ := List.mem_map.1 isControl
        cases same
        exact listed
    · intro mem
      exact List.mem_append_right _ (List.mem_map_of_mem mem)

theorem Shape.contentOf_of (nodeDef : NodeDef) (fanins : List FaninId) (controls : List String) :
    contentOf (Shape.of nodeDef fanins controls).nodeDef =
      { regular := fun index => fanins[index]?
        controls := fun name => decide (name ∈ controls)
        attrs := fun name => nodeDef.attr.lookup name } := by
  have isInput : (Shape.of nodeDef fanins controls).nodeDef.input = inputOf fanins controls := rfl
  exact Content.ext (contentOf_inputOf isInput).1 (contentOf_inputOf isInput).2 rfl

theorem swapPop_map {α β : Type} (f : α → β) (elements : List α) (index : Nat) :
    swapPop (elements.map f) index = (swapPop elements index).map f := by
  rcases List.eq_nil_or_concat' elements with isNil | ⟨front, last, isConcat⟩
  · rw [isNil]
    rfl
  · rw [isConcat, List.map_append, List.map_singleton, swapPop_concat, swapPop_concat, List.map_set]

/-- The last element takes the place of one of the last ones, and the end is dropped. -/
theorem dropLast_swapElements {α : Type} {front elements swapped : List α} (inside : k < elements.length)
    (isSwapped : swapElements (front ++ elements) (front.length + k) (front.length + (elements.length - 1)) =
      .ok swapped) : swapped.dropLast = front ++ swapPop elements k := by
  obtain ⟨before, last, isConcat⟩ : ∃ before last, elements = before ++ [last] := by
    rcases List.eq_nil_or_concat' elements with isNil | concat
    · rw [isNil] at inside
      cases inside
    · exact concat
  rw [isConcat, List.length_append, List.length_singleton, Nat.add_sub_cancel] at isSwapped
  rw [isConcat, swapPop_concat]
  unfold swapElements at isSwapped
  obtain ⟨first, -, isSwapped⟩ := bind_ok.1 isSwapped
  obtain ⟨second, atLast, isSwapped⟩ := bind_ok.1 isSwapped
  cases isSwapped
  rw [MutableGraphView.fetch_eq_ok, ← List.append_assoc, ← List.length_append, List.getElem?_concat_length] at atLast
  cases atLast
  rw [← List.append_assoc, ← List.length_append]
  by_cases inBefore : k < before.length
  · simp_all
  · have isLast : front.length + k = (front ++ before).length := by
      rw [isConcat, List.length_append, List.length_singleton] at inside
      rw [List.length_append]
      omega
    rw [isLast, List.set_set, List.set_append_right _ _ (Nat.le_refl _), Nat.sub_self,
      List.set_eq_of_length_le (Nat.le_of_not_lt inBefore)]
    exact List.dropLast_concat

namespace MutableGraphView

section Fanins

variable {view view' : MutableGraphView} {i : Nat} {nodeDef : NodeDef} {fanins : List FaninId} {controls : List String}

theorem removeControllingFanin_reshaped (inside : k < controls.length)
    (atShape : view.shapeAt i = some (.of nodeDef fanins controls))
    (ran : removeControllingFanin i fanins.length view k = .ok view') :
    Reshaped view i (.of nodeDef fanins (swapPop controls k)) view' := by
  unfold removeControllingFanin at ran
  obtain ⟨removed, isRemoved, ran⟩ := bind_ok.1 ran
  have rewired := (removeControllingFaninFanoutInternal_rewired isRemoved).reshaped atShape
  obtain ⟨node, atNode, ran⟩ := bind_ok.1 ran
  obtain ⟨stored, atStored, ran⟩ := bind_ok.1 ran
  rw [fetch_eq_ok] at atNode atStored
  obtain ⟨node', atNode', atDef, -, controlling⟩ := shapeAt_eq_some.1 rewired.here
  cases atNode.symm.trans atNode'
  have isStored : stored.nodeDef.input = inputOf fanins controls := by
    unfold nodeDef? at atDef
    rw [atStored] at atDef
    exact congrArg NodeDef.input (Option.some.inj atDef)
  change node.controllingFanins.length = controls.length at controlling
  dsimp only at ran
  rw [controlling, isStored] at ran
  have dropped : ∀ {before : MutableGraphView} {input : List TensorId}, before.shapeAt i =
      some ⟨{ nodeDef with input := input }, fanins.length, controls.length⟩ →
      input.dropLast = inputOf fanins (swapPop controls k) →
      Reshaped before i (.of nodeDef fanins (swapPop controls k))
        ((before.modifyNode i fun node => { node with controllingFanins := node.controllingFanins.dropLast }).modifyNodeDef i
          fun node => { node with input := node.input.dropLast }) := by
    intro before input atBefore isInput
    have shorter := Reshaped.modifyNode atBefore
      (fun node => { node with controllingFanins := node.controllingFanins.dropLast }) id (· - 1)
      fun node => ⟨rfl, List.length_dropLast⟩
    have final := shorter.trans (Reshaped.modifyNodeDef shorter.here fun node => { node with input := node.input.dropLast })
    unfold Shape.of
    rw [← isInput, length_swapPop]
    exact final
  split at ran
  next moves =>
    obtain ⟨last, -, ran⟩ := bind_ok.1 ran
    obtain ⟨lastDef, -, ran⟩ := bind_ok.1 ran
    obtain ⟨lastView, -, ran⟩ := bind_ok.1 ran
    split at ran
    next fanoutIndex _ _ _ =>
      obtain ⟨_, -, ran⟩ := bind_ok.1 ran
      obtain ⟨input, isInput, ran⟩ := bind_ok.1 ran
      cases ran
      have pointed : KeepsPlace fun lastView : MutableNodeView =>
          { lastView with
            controlledFanouts := lastView.controlledFanouts.modify fanoutIndex fun fanout =>
              { fanout with faninIndex := k } } := by
        constructor <;> exact fun _ => rfl
      have indexed : KeepsPlace fun node : MutableNodeView =>
          { node with
            controllingFaninsIndex := node.controllingFaninsIndex.insert lastDef.nodeDef.name k
            controllingFanins := node.controllingFanins.set k last } :=
        ⟨fun _ => rfl, fun _ => rfl, fun _ => rfl, fun _ => List.length_set⟩
      have moved := (((removeControllingFaninFanoutInternal_rewired isRemoved).modifyNode last.nodeIndex
        pointed).modifyNode i indexed).reshaped atShape
      have swapped := moved.trans (Reshaped.modifyNodeDef moved.here fun node => { node with input := input })
      refine swapped.trans (dropped swapped.here ?_)
      unfold inputOf
      rw [← swapPop_map]
      refine dropLast_swapElements (by rw [List.length_map]; exact inside) ?_
      rw [List.length_map, List.length_map]
      exact isInput
    next =>
      obtain ⟨_, failed, -⟩ := bind_ok.1 ran
      cases failed
  next isLast =>
    obtain ⟨moved, isMoved, ran⟩ := bind_ok.1 ran
    cases isMoved
    cases ran
    refine rewired.trans (dropped rewired.here ?_)
    rcases List.eq_nil_or_concat' controls with isNil | ⟨before, last, isConcat⟩
    · rw [isNil] at inside
      cases inside
    · rw [isConcat, List.length_append, List.length_singleton] at isLast
      rw [isConcat, swapPop_concat, List.set_eq_of_length_le (by omega)]
      unfold inputOf
      rw [List.map_append, ← List.append_assoc]
      exact List.dropLast_concat

theorem foldl_swapPop_length (indices : List Nat) (elements : List String) :
    (indices.foldl swapPop elements).length = elements.length - indices.length := by
  induction indices generalizing elements with
  | nil => rfl
  | cons index rest ih =>
    rw [List.foldl_cons, ih, length_swapPop, List.length_cons]
    omega

theorem removeControllingFaninInternal_reshaped (ascends : indices.Pairwise (· < ·))
    (inside : ∀ index ∈ indices, index < controls.length)
    (atShape : view.shapeAt i = some (.of nodeDef fanins controls))
    (ran : view.removeControllingFaninInternal i indices = .ok view') :
    Reshaped view i (.of nodeDef fanins (indices.reverse.foldl swapPop controls)) view' := by
  unfold removeControllingFaninInternal at ran
  obtain ⟨node, atNode, ran⟩ := bind_ok.1 ran
  rw [fetch_eq_ok] at atNode
  obtain ⟨node', atNode', -, regular, -⟩ := shapeAt_eq_some.1 atShape
  cases atNode.symm.trans atNode'
  have isCount : node.regularFanins.length = fanins.length := regular
  rw [isCount] at ran
  refine foldlM_invariant (fun seen reached => Reshaped view i (.of nodeDef fanins (seen.foldl swapPop controls)) reached)
    (.refl atShape) ?_ ran
  intro seen index rest before after split reshaped stepped
  have descends := List.pairwise_reverse.2 ascends
  rw [split] at descends
  have listed : ∀ place ∈ seen ++ index :: rest, place < controls.length := by
    intro place mem
    rw [← split, List.mem_reverse] at mem
    exact inside place mem
  have below : ∀ place ∈ seen, index < place :=
    fun place mem => (List.pairwise_append.1 descends).2.2 place mem index List.mem_cons_self
  have nodup : seen.Nodup := (List.pairwise_append.1 descends).1.imp fun {_ _} greater => Nat.ne_of_gt greater
  have room := add_length_lt nodup (listed index (List.mem_append_right _ List.mem_cons_self))
    (fun place mem => listed place (List.mem_append_left _ mem)) below
  rw [List.foldl_append]
  refine reshaped.trans (removeControllingFanin_reshaped ?_ reshaped.here stepped)
  rw [foldl_swapPop_length]
  omega

theorem addControllingFaninInternal_reshaped (atShape : view.shapeAt i = some (.of nodeDef fanins controls))
    (ran : addControllingFaninInternal i view name = .ok view') :
    Reshaped view i (.of nodeDef fanins (controls ++ [name])) view' := by
  unfold addControllingFaninInternal at ran
  obtain ⟨faninIndex, -, ran⟩ := bind_ok.1 ran
  have added := Reshaped.modifyNodeDef atShape fun node => { node with input := node.input ++ [⟨name, .controlSlot⟩] }
  have linked := added.trans (linkControllingFanin_reshaped added.here ran)
  unfold Shape.of inputOf at linked ⊢
  rw [List.map_append, List.length_append, ← List.append_assoc]
  exact linked

theorem addControllingFanins_reshaped {names : List String}
    (atShape : view.shapeAt i = some (.of nodeDef fanins controls))
    (ran : names.foldlM (addControllingFaninInternal i) view = .ok view') :
    Reshaped view i (.of nodeDef fanins (controls ++ names)) view' := by
  refine foldlM_invariant (fun seen reached => Reshaped view i (.of nodeDef fanins (controls ++ seen)) reached) ?_ ?_
    ran
  · rw [List.append_nil]
    exact .refl atShape
  · intro seen name rest before after _ reshaped stepped
    rw [← List.append_assoc]
    exact reshaped.trans (addControllingFaninInternal_reshaped reshaped.here stepped)

theorem updateRegularFanins_reshaped {entries : List (Nat × FaninId)}
    (inside : ∀ entry ∈ entries, entry.1 < fanins.length)
    (atShape : view.shapeAt i = some (.of nodeDef fanins controls))
    (ran : entries.foldlM (fun view entry => do
      let view ← view.updateRegularFaninInternal i entry.1 entry.2
      return view.modifyNodeDef i fun node => { node with input := node.input.set entry.1 entry.2.tensorId }) view =
        .ok view') :
    Reshaped view i
      (.of nodeDef (entries.foldl (fun reached entry => reached.set entry.1 entry.2) fanins) controls) view' := by
  refine foldlM_invariant (fun seen reached => Reshaped view i
    (.of nodeDef (seen.foldl (fun reached entry => reached.set entry.1 entry.2) fanins) controls) reached)
    (.refl atShape) ?_ ran
  intro seen entry rest before after split reshaped stepped
  obtain ⟨updated, isUpdated, stepped⟩ := bind_ok.1 stepped
  cases stepped
  have rewired := (updateRegularFaninInternal_rewired isUpdated).reshaped reshaped.here
  have written := rewired.trans (Reshaped.modifyNodeDef rewired.here fun node =>
    { node with input := node.input.set entry.1 entry.2.tensorId })
  have isInside := inside entry (split ▸ List.mem_append_right _ List.mem_cons_self)
  refine reshaped.trans ?_
  rw [List.foldl_append]
  unfold Shape.of inputOf at written ⊢
  rw [List.foldl_cons, List.foldl_nil, List.length_set, List.map_set,
    ← List.set_append_left _ _ (by rw [List.length_map, length_foldl_set]; exact isInside)]
  exact written

/-! ## Appended fanins -/

theorem swapElements_append {α : Type} (front rest : List α) (first element : α) :
    swapElements (front ++ first :: rest ++ [element]) front.length (front ++ first :: rest).length =
      .ok (front ++ [element] ++ (rest ++ [first])) := by
  have atFirst : (front ++ first :: rest ++ [element])[front.length]? = some first := by
    rw [List.append_assoc, List.getElem?_append_right (Nat.le_refl _), Nat.sub_self]
    rfl
  rw [swapElements_eq_ok atFirst (List.getElem?_concat_length ..)]
  simp_all

theorem swapElements_last {α : Type} (front : List α) (element : α) :
    swapElements (front ++ [element]) front.length front.length = .ok (front ++ [element]) := by
  have atLast : (front ++ [element])[front.length]? = some element := List.getElem?_concat_length ..
  rw [swapElements_eq_ok atLast atLast, List.set_set, List.set_append_right _ _ (Nat.le_refl _), Nat.sub_self]
  rfl

def controlInput (name : String) : TensorId := ⟨name, .controlSlot⟩

/-- A node while regular fanins are appended: each one took the place of a control fanin, which went to
the end, so the control fanins are rotated. -/
structure Appending (view : MutableGraphView) (i : Nat) (nodeDef : NodeDef) (fanins : List FaninId)
    (first last : List String) (state : MutableGraphView × Nat × Nat) : Prop where
  reshaped : Reshaped view i
    ⟨{ nodeDef with input := fanins.map FaninId.tensorId ++ (last ++ first).map controlInput }, fanins.length,
      (first ++ last).length⟩ state.1
  place : state.2.1 = fanins.length
  start : first ++ last ≠ [] → state.2.2 = fanins.length + last.length

theorem Appending.append {first last : List String} {state' : MutableGraphView × Nat × Nat} {fanin : Option FaninId}
    (appending : Appending view i nodeDef fanins first last state)
    (ran : Session.appendRegularFanin i state fanin = .ok state') :
    ∃ added first' last', fanin = some added ∧ first' ++ last' = first ++ last ∧
      Appending view i nodeDef (fanins ++ [added]) first' last' state' := by
  obtain ⟨reached, currIndex, currControlStart⟩ := state
  obtain ⟨reshaped, place, start⟩ := appending
  dsimp only at reshaped place start
  cases fanin with
  | none => cases ran
  | some added =>
    unfold Session.appendRegularFanin at ran
    obtain ⟨linked, isLinked, ran⟩ := bind_ok.1 ran
    obtain ⟨faninIndex, -, isLinked⟩ := bind_ok.1 isLinked
    obtain ⟨stored, atStored, ran⟩ := bind_ok.1 ran
    obtain ⟨input, isInput, ran⟩ := bind_ok.1 ran
    cases ran
    have more := linkRegularFanin_reshaped reshaped.here isLinked
    have written := (reshaped.trans more).trans
      (Reshaped.modifyNodeDef more.here fun node => { node with input := input })
    have isStored : stored.nodeDef.input = fanins.map FaninId.tensorId ++ (last ++ first).map controlInput := by
      obtain ⟨_, -, atDef, -, -⟩ := shapeAt_eq_some.1 more.here
      rw [fetch_eq_ok] at atStored
      unfold nodeDef? at atDef
      rw [atStored] at atDef
      exact congrArg NodeDef.input (Option.some.inj atDef)
    have isLength : (fanins ++ [added]).length = fanins.length + 1 := List.length_append
    rw [isStored, place, List.length_append, List.length_singleton, Nat.add_sub_cancel] at isInput
    rw [isStored, place]
    have rotated : ∀ {name : String} {rest : List String}, last ++ first = name :: rest →
        input = (fanins ++ [added]).map FaninId.tensorId ++ (rest ++ [name]).map controlInput := by
      intro name rest isRest
      have swapped := swapElements_append (fanins.map FaninId.tensorId) (rest.map controlInput) (controlInput name)
        added.tensorId
      rw [List.length_map] at swapped
      rw [isRest] at isInput
      rw [List.map_append, List.map_append]
      exact Except.ok.inj (isInput.symm.trans swapped)
    have final : ∀ {first' last' : List String}, first' ++ last' = first ++ last →
        input = (fanins ++ [added]).map FaninId.tensorId ++ (last' ++ first').map controlInput →
        Reshaped view i
          ⟨{ nodeDef with input := (fanins ++ [added]).map FaninId.tensorId ++ (last' ++ first').map controlInput },
            (fanins ++ [added]).length, (first' ++ last').length⟩
          (linked.modifyNodeDef i fun node => { node with input := input }) := by
      intro first' last' same isRotated
      rw [← isRotated, isLength, same]
      exact written
    cases last with
    | cons name last =>
      have same : (first ++ [name]) ++ last = first ++ name :: last := by
        rw [List.append_assoc]
        rfl
      have isStart := start (List.append_ne_nil_of_right_ne_nil _ (List.cons_ne_nil _ _))
      have notHere : currControlStart ≠ fanins.length := by
        rw [isStart, List.length_cons]
        omega
      refine ⟨added, first ++ [name], last, rfl, same, final same ?_, isLength.symm, fun _ => ?_⟩
      · rw [rotated (List.cons_append ..), List.append_assoc]
      · dsimp only
        rw [if_neg notHere, isStart, isLength, List.length_cons]
        omega
    | nil =>
      rw [List.append_nil] at start
      cases first with
      | cons name first =>
        have same : [name] ++ first = (name :: first) ++ [] := (List.append_nil _).symm
        refine ⟨added, [name], first, rfl, same, final same (rotated rfl), isLength.symm, fun _ => ?_⟩
        grind
      | nil =>
        refine ⟨added, [], [], rfl, rfl, final rfl ?_, isLength.symm, fun nonempty => absurd rfl nonempty⟩
        have swapped := swapElements_last (fanins.map FaninId.tensorId) added.tensorId
        simp_all

theorem appendRegularFanins_appending {adds : List (Option FaninId)}
    (atShape : view.shapeAt i = some (.of nodeDef fanins controls))
    (ran : adds.foldlM (Session.appendRegularFanin i) (view, fanins.length, fanins.length) = .ok state) :
    ∃ added first last, adds = added.map some ∧ first ++ last = controls ∧
      Appending view i nodeDef (fanins ++ added) first last state := by
  refine foldlM_invariant (fun seen reached => ∃ added first last, seen = added.map some ∧ first ++ last = controls ∧
    Appending view i nodeDef (fanins ++ added) first last reached) ?_ ?_ ran
  · refine ⟨[], controls, [], rfl, List.append_nil _, ?_, ?_, ?_⟩
    · rw [List.append_nil, List.append_nil]
      exact .refl atShape
    · rw [List.append_nil]
    · intro _
      rw [List.append_nil]
      rfl
  · intro seen fanin rest before after _ ⟨added, first, last, isSeen, isControls, appending⟩ stepped
    obtain ⟨new, first', last', isNew, same, appending'⟩ := appending.append stepped
    refine ⟨added ++ [new], first', last', ?_, same.trans isControls, ?_⟩
    · rw [isSeen, isNew, List.map_append]
      rfl
    · rw [← List.append_assoc]
      exact appending'

theorem rotateFrom_appended {α : Type} (front first last : List α) :
    Session.rotateFrom (front ++ (last ++ first)) front.length (front.length + last.length) = front ++ (first ++ last) := by
  unfold Session.rotateFrom
  rw [← List.append_assoc, ← List.length_append, List.drop_left, List.take_left, List.drop_left, List.append_assoc,
    List.append_assoc front, List.take_left]

end Fanins

end MutableGraphView

/-- The regular fanins after those that are removed from the end, or appended. -/
def NodeViewDiff.resized (diff : NodeViewDiff) (fanins : List FaninId) : List FaninId :=
  if 0 < diff.numRegularInputsToRemove then fanins.take (fanins.length - diff.numRegularInputsToRemove)
  else if 0 < diff.numRegularInputsToAdd then fanins ++ diff.regularInputsToAdd.filterMap id
  else fanins

theorem getElem?_filterMap_id {α : Type} {elements : List (Option α)} (whole : none ∉ elements) (index : Nat) :
    (elements.filterMap id)[index]? = elements.getD index none := by
  obtain ⟨values, isMap⟩ : ∃ values : List α, elements = values.map some := by
    refine ⟨elements.filterMap id, ?_⟩
    induction elements with
    | nil => rfl
    | cons element rest ih =>
      cases element with
      | none => exact absurd List.mem_cons_self whole
      | some value =>
        have isSome : id (some value) = some value := rfl
        rw [List.filterMap_cons_some isSome, List.map_cons, ← ih fun mem => whole (List.mem_cons_of_mem _ mem)]
  rw [isMap, List.filterMap_map, List.getD_eq_getElem?_getD, List.getElem?_map]
  change (values.filterMap some)[index]? = _
  rw [List.filterMap_some]
  cases values[index]? <;> rfl

namespace NodeViewDiff

/-- What validation makes sure of, beyond the names: the removed fanins are the last ones, and there are
no gaps between those appended. -/
structure WellFormed (diff : NodeViewDiff) : Prop where
  adds : diff.regularInputsToAdd.length = diff.numRegularInputsToAdd
  removes : diff.regularInputsToRemove.length = diff.numRegularInputsToRemove
  separate : 0 < diff.numRegularInputsToAdd → diff.regularInputsToRemove = []

section Meaning

variable {diff : NodeViewDiff} {facts : NodeFacts} {fanins : List FaninId} (sound : diff.Sound facts)
  (wf : diff.WellFormed) (isCount : facts.count = fanins.length)
include sound wf

theorem WellFormed.marked {place : Nat} (inside : place < diff.numRegularInputsToRemove) :
    diff.regularInputsToRemove.getD place false = true := by
  have isLength : place < diff.regularInputsToRemove.length := wf.removes.symm ▸ inside
  have all := sound.removeCount
  rw [← wf.removes] at all
  have marked := List.countP_eq_length.1 all.symm _ (List.getElem_mem isLength)
  rw [List.getD_eq_getElem?_getD, List.getElem?_eq_getElem isLength]
  simpa using marked

include isCount

theorem WellFormed.removable : diff.numRegularInputsToRemove ≤ fanins.length := by
  rw [← wf.removes, ← isCount]
  exact sound.removeLength

theorem WellFormed.length_resized_le (index : Nat) (inside : index < fanins.length)
    (kept : diff.regularInputsToRemove.getD (facts.count - index - 1) false = false) :
    index < (diff.resized fanins).length := by
  unfold resized
  split
  next removes =>
    rw [List.length_take]
    by_contra notBelow
    have isMarked : facts.count - index - 1 < diff.numRegularInputsToRemove := by omega
    rw [wf.marked sound isMarked] at kept
    cases kept
  next =>
    split
    · rw [List.length_append]
      omega
    · exact inside

theorem WellFormed.regular (noGaps : diff.numRegularInputsToRemove = 0 → 0 < diff.numRegularInputsToAdd →
    none ∉ diff.regularInputsToAdd) (isOriginal : ∀ index, facts.original.regular index = fanins[index]?) (index : Nat) :
    (diff.regularInputsToUpdate.foldl (fun reached entry => reached.set entry.1 entry.2) (diff.resized fanins))[index]? =
      (diff.content facts).regular index := by
  rw [getElem?_foldl_set _ sound.updateAscends]
  have noAdds : diff.numRegularInputsToAdd = 0 → diff.regularInputsToAdd = [] := by
    intro isZero
    rw [← wf.adds] at isZero
    exact List.length_eq_zero_iff.1 isZero
  by_cases removes : 0 < diff.numRegularInputsToRemove
  · have isResized : diff.resized fanins = fanins.take (fanins.length - diff.numRegularInputsToRemove) := if_pos removes
    have nothingAdded : diff.regularInputsToAdd = [] := by
      apply noAdds
      by_contra adds
      have none := wf.separate (Nat.pos_of_ne_zero adds)
      have isLength := wf.removes
      rw [none, List.length_nil] at isLength
      omega
    rw [isResized, List.length_take]
    by_cases below : index < fanins.length - diff.numRegularInputsToRemove
    · have unmarked : diff.regularInputsToRemove.getD (facts.count - index - 1) false = false := by
        rw [List.getD_eq_getElem?_getD, List.getElem?_eq_none (by rw [wf.removes]; omega)]
        rfl
      rw [if_pos (by omega), List.getElem?_take_of_lt below, regular_of_lt diff (by omega), unmarked, isOriginal]
      rfl
    · rw [if_neg (by omega)]
      by_cases inside : index < facts.count
      · rw [regular_of_lt diff inside, wf.marked sound (by omega), if_pos rfl]
      · rw [regular_of_ge diff inside, nothingAdded, List.getD_nil]
  · have unmarked : diff.regularInputsToRemove = [] := by
      apply List.length_eq_zero_iff.1
      rw [wf.removes]
      omega
    have isResized : diff.resized fanins = fanins ++ diff.regularInputsToAdd.filterMap id := by
      unfold resized
      rw [if_neg removes]
      split
      · rfl
      next adds => rw [noAdds (by omega), List.filterMap_nil, List.append_nil]
    rw [isResized]
    by_cases inside : index < facts.count
    · have inFanins : index < fanins.length := isCount ▸ inside
      rw [if_pos (by rw [List.length_append]; omega), List.getElem?_append_left inFanins, regular_of_lt diff inside,
        unmarked, isOriginal]
      rfl
    · have notUpdated : diff.regularInputsToUpdate.lookup index = none := by
        by_contra updated
        exact inside (sound.updateInside index updated).1
      have whole : none ∉ diff.regularInputsToAdd := by
        by_cases adds : 0 < diff.numRegularInputsToAdd
        · exact noGaps (Nat.eq_zero_of_not_pos removes) adds
        · rw [noAdds (by omega)]
          exact List.not_mem_nil
      rw [notUpdated, Option.none_or, List.getElem?_append_right (by omega), regular_of_ge diff inside,
        ← getElem?_filterMap_id whole, isCount]
      split
      · rfl
      next beyond =>
        rw [List.length_append] at beyond
        exact (List.getElem?_eq_none (by omega)).symm

omit wf isCount in
theorem Sound.controls {controls : List String} (order : HashOrder)
    (isIndex : ∀ name k, facts.controlIndex name = some k ↔ controls[k]? = some name) (name : String) :
    decide (name ∈ diff.controllingInputsToRemove.reverse.foldl swapPop controls ++
      order.strings diff.controllingInputsToAdd) = (diff.content facts).controls name := by
  have descends := List.pairwise_reverse.2 sound.controlRemoved.1
  have inside : ∀ k ∈ diff.controllingInputsToRemove.reverse, k < controls.length := by
    intro k mem
    obtain ⟨other, isOther⟩ := sound.controlRemoved.2 k (List.mem_reverse.1 mem)
    exact read_lt ((isIndex other k).1 isOther)
  have removed := mem_foldl_swapPop descends inside name
  have added : name ∈ order.strings diff.controllingInputsToAdd ↔ name ∈ diff.controllingInputsToAdd :=
    (order.strings_perm _).mem_iff
  unfold content
  dsimp only
  rw [Bool.eq_iff_iff, decide_eq_true_iff, List.mem_append, removed, added]
  cases isControl : facts.controlIndex name with
  | none =>
    rw [decide_eq_true_iff, or_iff_right]
    intro ⟨k, atK, _⟩
    exact nomatch isControl.symm.trans ((isIndex name k).2 atK)
  | some k =>
    have notAdded : name ∉ diff.controllingInputsToAdd :=
      fun mem => nomatch isControl.symm.trans (sound.controlAdded.2 name mem)
    rw [decide_eq_true_iff, or_iff_left notAdded]
    constructor
    · intro ⟨place, atPlace, kept⟩
      cases isControl.symm.trans ((isIndex name place).2 atPlace)
      exact fun mem => kept (List.mem_reverse.2 mem)
    · intro kept
      exact ⟨k, (isIndex name k).1 isControl, fun mem => kept (List.mem_reverse.1 mem)⟩

end Meaning

end NodeViewDiff

namespace NodeViewDiff

section Trim

variable {diff : NodeViewDiff} {facts : NodeFacts}

theorem content_trim : diff.trim.content facts = diff.content facts := by
  apply Content.ext
  · funext index
    by_cases inside : index < facts.count
    · rw [regular_of_lt _ inside, regular_of_lt _ inside]
      unfold trim
      dsimp only
      rw [getD_trimEnd]
    · rw [regular_of_ge _ inside, regular_of_ge _ inside]
      unfold trim
      dsimp only
      rw [getD_trimEnd]
  · rfl
  · rfl

theorem Sound.trim (sound : diff.Sound facts) : diff.trim.Sound facts where
  removeLength := Nat.le_trans (List.rdropWhile_prefix _ _).length_le sound.removeLength
  removeCount := sound.removeCount.trans (countP_trimEnd _ _).symm
  addCount := sound.addCount.trans (countP_trimEnd _ _).symm
  updateAscends := sound.updateAscends
  updateInside index found := by
    obtain ⟨inside, unmarked⟩ := sound.updateInside index found
    refine ⟨inside, ?_⟩
    unfold NodeViewDiff.trim
    dsimp only
    rw [getD_trimEnd]
    exact unmarked
  controlAdded := sound.controlAdded
  controlRemoved := sound.controlRemoved

theorem content_of_isEmpty (isFacts : facts.IsSound) (isEmpty : diff.isEmpty = true) :
    diff.content facts = facts.original := by
  unfold NodeViewDiff.isEmpty at isEmpty
  simp only [Bool.and_eq_true, List.isEmpty_iff] at isEmpty
  obtain ⟨⟨⟨⟨⟨⟨⟨⟨⟨_, _⟩, _⟩, adds⟩, updates⟩, removes⟩, controlAdds⟩, controlRemoves⟩, attrAdds⟩, attrRemoves⟩ := isEmpty
  rw [← content_empty isFacts diff.nodeIndex]
  apply Content.ext
  · unfold content
    dsimp only
    rw [adds, updates, removes]
  · unfold content
    dsimp only
    rw [controlAdds, controlRemoves]
  · have noAttrs : diff.attrsToAdd = ∅ := AList.ext (List.map_eq_nil_iff.1 attrAdds)
    unfold content
    dsimp only
    rw [noAttrs, attrRemoves]

end Trim

end NodeViewDiff

namespace Session

open MutableGraphView

section Update

variable {view view' : MutableGraphView} {diff : NodeViewDiff} {nodeDef : NodeDef} {fanins : List FaninId}
  {controls : List String}

theorem resizeRegularFanins_reshaped (removable : diff.numRegularInputsToRemove ≤ fanins.length)
    (atShape : view.shapeAt diff.nodeIndex = some (.of nodeDef fanins controls))
    (ran : resizeRegularFanins view diff = .ok view') :
    Reshaped view diff.nodeIndex (.of nodeDef (diff.resized fanins) controls) view' ∧
      (diff.numRegularInputsToRemove = 0 → 0 < diff.numRegularInputsToAdd → none ∉ diff.regularInputsToAdd) := by
  unfold resizeRegularFanins at ran
  obtain ⟨node, atNode, ran⟩ := bind_ok.1 ran
  rw [fetch_eq_ok] at atNode
  obtain ⟨node', atNode', -, regular, controlling⟩ := shapeAt_eq_some.1 atShape
  cases atNode.symm.trans atNode'
  have isCount : node.regularFanins.length = fanins.length := regular
  have isControlCount : node.controllingFanins.length = controls.length := controlling
  dsimp only at ran
  rw [isCount, isControlCount] at ran
  unfold NodeViewDiff.resized
  split at ran
  next removes =>
    rw [if_pos removes]
    refine ⟨?_, fun isZero => absurd removes (by omega)⟩
    obtain ⟨unread, isUnread, ran⟩ := bind_ok.1 ran
    cases ran
    have unlinked : Reshaped view diff.nodeIndex (.of nodeDef fanins controls) unread :=
      foldlM_invariant (fun _ reached => Reshaped view diff.nodeIndex (.of nodeDef fanins controls) reached)
        (.refl atShape) (fun _ _ _ _ _ _ reshaped stepped =>
          reshaped.trans ((removeRegularFaninFanoutInternal_rewired stepped).reshaped reshaped.here)) isUnread
    have shorter := unlinked.trans (Reshaped.modifyNode unlinked.here
      (fun node => { node with regularFanins := node.regularFanins.take (fanins.length - diff.numRegularInputsToRemove) })
      (fun count => min (fanins.length - diff.numRegularInputsToRemove) count) id
      fun node => ⟨List.length_take, rfl⟩)
    have written := shorter.trans (Reshaped.modifyNodeDef shorter.here fun node => { node with
      input := node.input.take (fanins.length - diff.numRegularInputsToRemove) ++
        node.input.drop (fanins.length - diff.numRegularInputsToRemove + diff.numRegularInputsToRemove) })
    have isInput : (inputOf fanins controls).take (fanins.length - diff.numRegularInputsToRemove) ++
        (inputOf fanins controls).drop (fanins.length - diff.numRegularInputsToRemove + diff.numRegularInputsToRemove) =
        inputOf (fanins.take (fanins.length - diff.numRegularInputsToRemove)) controls := by
      have isMap : (fanins.map FaninId.tensorId).length = fanins.length := List.length_map _
      unfold inputOf
      rw [Nat.sub_add_cancel removable, List.take_append_of_le_length (by rw [isMap]; exact Nat.sub_le _ _),
        ← isMap, List.drop_left, isMap, List.map_take]
    unfold Shape.of
    rw [← isInput, List.length_take]
    exact written
  next noRemoves =>
    rw [if_neg noRemoves]
    split at ran
    next adds =>
      rw [if_pos adds]
      obtain ⟨state, isState, ran⟩ := bind_ok.1 ran
      obtain ⟨added, first, last, isAdds, isControls, appending⟩ := appendRegularFanins_appending atShape isState
      have isFilter : diff.regularInputsToAdd.filterMap id = added := by
        rw [isAdds, List.filterMap_map]
        exact List.filterMap_some
      rw [isFilter]
      obtain ⟨reached, currIndex, currControlStart⟩ := state
      have place := appending.place
      have start := appending.start
      have reshaped := appending.reshaped
      dsimp only at ran place start reshaped
      rw [isControls] at start reshaped
      constructor
      · split at ran
        next rotates =>
          cases ran
          have nonempty : controls ≠ [] := fun isNil => absurd rotates.1 (by rw [isNil]; exact Nat.not_lt_zero _)
          have written := reshaped.trans (Reshaped.modifyNodeDef reshaped.here fun node =>
            { node with input := rotateFrom node.input currIndex currControlStart })
          have isInput : rotateFrom ((fanins ++ added).map FaninId.tensorId ++ (last ++ first).map controlInput) currIndex
              currControlStart = inputOf (fanins ++ added) controls := by
            have rotated := rotateFrom_appended ((fanins ++ added).map FaninId.tensorId) (first.map controlInput)
              (last.map controlInput)
            rw [List.length_map, List.length_map, ← List.map_append, ← List.map_append, isControls] at rotated
            rw [place, start nonempty]
            exact rotated
          unfold Shape.of
          rw [← isInput]
          exact written
        next stays =>
          cases ran
          have unrotated : last ++ first = controls := by
            cases first with
            | nil => rw [List.append_nil, ← isControls, List.nil_append]
            | cons name first =>
              cases last with
              | nil => rw [List.nil_append, ← isControls, List.append_nil]
              | cons name' last =>
                refine absurd ⟨?_, ?_⟩ stays
                · rw [← isControls, List.length_append, List.length_cons, List.length_cons]
                  omega
                · rw [place, start (isControls ▸ List.cons_ne_nil _ _), List.length_cons]
                  omega
          rw [unrotated] at reshaped
          exact reshaped
      · intro _ _ mem
        rw [isAdds] at mem
        obtain ⟨_, _, isNone⟩ := List.mem_map.1 mem
        cases isNone
    next noAdds =>
      rw [if_neg noAdds]
      cases ran
      exact ⟨.refl atShape, fun _ adds => absurd adds noAdds⟩

theorem applyNodeUpdate_reshaped {order : HashOrder} (notEmpty : diff.isEmpty = false)
    (removable : diff.numRegularInputsToRemove ≤ fanins.length)
    (inside : ∀ entry ∈ diff.regularInputsToUpdate, entry.1 < (diff.resized fanins).length)
    (ascends : diff.controllingInputsToRemove.Pairwise (· < ·))
    (controlled : ∀ index ∈ diff.controllingInputsToRemove, index < controls.length)
    (atShape : view.shapeAt diff.nodeIndex = some (.of nodeDef fanins controls))
    (ran : applyNodeUpdate order view diff = .ok view') :
    (diff.numRegularInputsToRemove = 0 → 0 < diff.numRegularInputsToAdd → none ∉ diff.regularInputsToAdd) ∧
      Reshaped view diff.nodeIndex
        (.of
          { nodeDef with
            op := diff.op.getD nodeDef.op
            device := diff.device.getD nodeDef.device
            attr := processedAttrs diff nodeDef.attr }
          (diff.regularInputsToUpdate.foldl (fun reached entry => reached.set entry.1 entry.2) (diff.resized fanins))
          (diff.controllingInputsToRemove.reverse.foldl swapPop controls ++ order.strings diff.controllingInputsToAdd))
        view' := by
  unfold applyNodeUpdate at ran
  rw [notEmpty] at ran
  obtain ⟨resized, isResized, ran⟩ := bind_ok.1 ran
  obtain ⟨updated, isUpdated, ran⟩ := bind_ok.1 ran
  obtain ⟨uncontrolled, isUncontrolled, ran⟩ := bind_ok.1 ran
  have cleaned := Reshaped.modifyNode atShape (fun node => { node with updateIndex := none }) id id
    fun _ => ⟨rfl, rfl⟩
  have written := cleaned.trans (Reshaped.modifyNodeDef cleaned.here fun node =>
    { node with
      op := diff.op.getD node.op
      device := diff.device.getD node.device
      attr := processedAttrs diff node.attr })
  have kept := @resizeRegularFanins_reshaped _ _ diff
    { nodeDef with
      op := diff.op.getD nodeDef.op
      device := diff.device.getD nodeDef.device
      attr := processedAttrs diff nodeDef.attr } fanins controls removable written.here isResized
  have replaced := updateRegularFanins_reshaped inside kept.1.here isUpdated
  have removed := removeControllingFaninInternal_reshaped ascends controlled replaced.here isUncontrolled
  have added := addControllingFanins_reshaped removed.here ran
  exact ⟨kept.2, (((written.trans kept.1).trans replaced).trans removed).trans added⟩

end Update

section Validation

variable {session : Session} {order : HashOrder}

theorem isWellFormed_wellFormed {nodeNames : NodeNames} {diff : NodeViewDiff}
    (ran : session.isWellFormed nodeNames diff = .ok true) : diff.WellFormed := by
  unfold isWellFormed at ran
  obtain ⟨adds, ran⟩ := of_guard ran
  obtain ⟨separate, ran⟩ := of_guard ran
  obtain ⟨removes, ran⟩ := of_guard ran
  refine ⟨Decidable.not_not.1 adds, Decidable.not_not.1 removes, ?_⟩
  intro pos
  by_contra nonempty
  exact separate ⟨pos, nonempty⟩

theorem validateInternal_checks (sameNames : ∀ diff ∈ session.mutation.updatedNodes, diff.name = none)
    {partition : Partition} (ran : session.validateInternal order = .ok partition) : partition.renamedNodes = [] ∧
      ∀ diff ∈ session.mutation.updatedNodes, diff.isEmpty = false → diff.WellFormed := by
  unfold validateInternal at ran
  obtain ⟨named, isNamed, ran⟩ := bind_ok.1 ran
  obtain ⟨_, checked, ran⟩ := bind_ok.1 ran
  cases ran
  unfold getNodeNamesAndPartitionUpdatedNodes at isNamed
  obtain ⟨renamed, -, isNamed⟩ := bind_ok.1 isNamed
  obtain ⟨removed, -, isNamed⟩ := bind_ok.1 isNamed
  obtain ⟨updated, isUpdated, isNamed⟩ := bind_ok.1 isNamed
  obtain ⟨names, -, isNamed⟩ := bind_ok.1 isNamed
  cases isNamed
  have partitioned : updated.renamedNodes = [] ∧ ∀ entry ∈ session.mutation.updatedNodes.zipIdx,
      entry.1.isEmpty = false → entry.2 ∈ updated.inplaceNodes := by
    refine foldlM_invariant (fun (seen : List (NodeViewDiff × Nat)) (reached : Partition) => reached.renamedNodes = [] ∧
      ∀ entry ∈ seen, entry.1.isEmpty = false → entry.2 ∈ reached.inplaceNodes) ⟨rfl, nofun⟩ ?_ isUpdated
    intro seen entry rest before after split ⟨noneRenamed, inplace⟩ stepped
    have isMember : entry ∈ session.mutation.updatedNodes.zipIdx := split ▸ List.mem_append_right _ List.mem_cons_self
    have sameName := sameNames entry.1 (List.fst_mem_of_mem_zipIdx isMember)
    unfold partitionUpdated at stepped
    dsimp only at stepped
    split at stepped
    next isEmpty =>
      cases stepped
      grind
    next =>
      rw [sameName] at stepped
      obtain ⟨name, -, stepped⟩ := bind_ok.1 stepped
      obtain ⟨nodeNames, -, stepped⟩ := bind_ok.1 stepped
      cases stepped
      grind
  refine ⟨partitioned.1, ?_⟩
  intro diff mem notEmpty
  obtain ⟨updateIndex, atUpdate⟩ := List.mem_iff_getElem?.1 mem
  have inplace := partitioned.2 (diff, updateIndex) (List.mem_zipIdx_iff_getElem?.2 atUpdate) notEmpty
  unfold checkNodeNamesAndFanins at checked
  obtain ⟨_, -, checked⟩ := bind_ok.1 checked
  obtain ⟨_, inplaceChecked, -⟩ := bind_ok.1 checked
  have isChecked := forM_eq_ok inplaceChecked updateIndex inplace
  obtain ⟨found, isFound, isChecked⟩ := bind_ok.1 isChecked
  rw [fetch_eq_ok, atUpdate] at isFound
  cases isFound
  obtain ⟨name, -, isChecked⟩ := bind_ok.1 isChecked
  obtain ⟨wf, isWellFormed, isChecked⟩ := bind_ok.1 isChecked
  rw [Itex.Graph.require_eq_ok.1 isChecked] at isWellFormed
  exact isWellFormed_wellFormed isWellFormed

end Validation

end Session

/-! ## The nodes of a view -/

namespace MutableGraphView

section Nodes

variable {view : MutableGraphView} {i : Nat} {node : MutableNodeView} {nodeDef : NodeDef}

def faninsOf (view : MutableGraphView) (node : MutableNodeView) : List FaninId :=
  node.regularFanins.map fun fanin => ⟨view.nameAt fanin.nodeIndex, fanin.index⟩

def controlsOf (view : MutableGraphView) (node : MutableNodeView) : List String :=
  node.controllingFanins.map fun fanin => view.nameAt fanin.nodeIndex

theorem inputsOf_eq_inputOf (view : MutableGraphView) (node : MutableNodeView) :
    view.inputsOf node = inputOf (view.faninsOf node) (view.controlsOf node) := by
  unfold inputsOf inputOf faninsOf controlsOf
  rw [List.map_map, List.map_map]
  rfl

variable (inv : view.Inv) (atNode : view.nodes[i]? = some node) (atDef : view.nodeDef? i = some nodeDef)
include inv atNode

theorem Inv.controlIndex (name : String) (k : Nat) :
    node.controllingFaninsIndex.lookup name = some k ↔ (view.controlsOf node)[k]? = some name := by
  rw [(inv.summarized node (List.mem_of_getElem? atNode)).controls]
  unfold controlsOf
  rw [List.getElem?_map, Option.map_eq_some_iff]
  constructor
  · intro ⟨fanin, atK, _, isName⟩
    exact ⟨fanin, atK, isName⟩
  · intro ⟨fanin, atK, isName⟩
    refine ⟨fanin, atK, ?_, isName⟩
    apply inv.attached.control
    rw [control, field_of_getElem? atNode]
    exact atK

include atDef

theorem Inv.isInput : nodeDef.input = inputOf (view.faninsOf node) (view.controlsOf node) :=
  (inv.inputs atNode atDef).trans (inputsOf_eq_inputOf view node)

theorem Inv.shapeAt : view.shapeAt i = some (.of nodeDef (view.faninsOf node) (view.controlsOf node)) := by
  refine shapeAt_eq_some.2 ⟨node, atNode, ?_, (List.length_map _).symm, (List.length_map _).symm⟩
  rw [atDef, Shape.of, ← inv.isInput atNode atDef]

theorem Inv.applyNodeUpdate_records {order : HashOrder} {diff : NodeViewDiff} {edits : List NodeEdit}
    (records : Records node nodeDef edits diff) (wf : diff.isEmpty = false → diff.WellFormed)
    {before after : MutableGraphView} (sameShape : before.shapeAt i = view.shapeAt i)
    (ran : Session.applyNodeUpdate order before diff = .ok after) : ∃ shape, Reshaped before i shape after ∧
      contentOf shape.nodeDef = Content.recorded (contentOf nodeDef) edits := by
  have isIndex : diff.nodeIndex = i := records.nodeIndex.trans (inv.indexed.nodeIndex atNode)
  have atShape := sameShape.trans (inv.shapeAt atNode atDef)
  have isFacts := inv.isFacts atNode atDef
  have isInput := inv.isInput atNode atDef
  rw [← records.content]
  cases isEmpty : diff.isEmpty with
  | true =>
    unfold Session.applyNodeUpdate at ran
    rw [isEmpty] at ran
    cases ran
    refine ⟨_, .refl atShape, ?_⟩
    rw [NodeViewDiff.content_of_isEmpty isFacts isEmpty, Shape.of, ← isInput]
    rfl
  | false =>
    have checked := wf isEmpty
    have isCount : (factsOf node nodeDef).count = (view.faninsOf node).length := (List.length_map _).symm
    have sound := records.sound
    rw [← isIndex] at atShape ⊢
    have applied := Session.applyNodeUpdate_reshaped isEmpty (checked.removable sound isCount) ?_
      sound.controlRemoved.1 ?_ atShape ran
    · refine ⟨_, applied.2, ?_⟩
      have isOriginal : ∀ index, (factsOf node nodeDef).original.regular index = (view.faninsOf node)[index]? :=
        fun index => congrFun (contentOf_inputOf isInput).1 index
      rw [Shape.contentOf_of]
      apply Content.ext
      · exact funext fun index => checked.regular sound isCount applied.1 isOriginal index
      · exact funext fun name => sound.controls order (inv.controlIndex atNode) name
      · exact funext fun name => lookup_processedAttrs diff nodeDef.attr name
    · intro entry mem
      have found := lookup_eq_some_of_ascends sound.updateAscends mem
      obtain ⟨inside, kept⟩ := sound.updateInside entry.1 (by rw [found]; exact Option.some_ne_none _)
      exact checked.length_resized_le sound isCount entry.1 (isCount ▸ inside) kept
    · intro k mem
      obtain ⟨name, isControl⟩ := sound.controlRemoved.2 k mem
      exact read_lt ((inv.controlIndex atNode name k).1 isControl)

end Nodes

end MutableGraphView

end Itex.GraphUtils
