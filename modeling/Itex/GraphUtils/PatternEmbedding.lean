import Itex.GraphUtils.PatternSafety

/-!
Contract: what a match of a pattern says about the graph.

Owns: the assignment of nodes to the occurrences of a pattern, embeddings, and when a match is
one.
-/

namespace Itex.GraphUtils

open Itex.Graph (GraphDef require_eq_ok)
open Itex.Lib

variable {books books' : Bookkeeping}

/-! ## Children in order -/

/-- The operator of a child that stands for several inputs. -/
def isVariadic (op : String) : Bool := op ≠ "*" && endsWithStar op

/-- The children for each of `size` inputs: the variadic one takes what the others leave. -/
def laidOut (children : List OpTypePattern) (size : Nat) : List OpTypePattern :=
  children.flatMap fun child =>
    if isVariadic child.op then List.replicate (size - (children.length - 1)) child else [child]

/-- The children for the inputs of a node, in order or, for a commutative operator, exchanged. -/
def Arranges (pattern : OpTypePattern) (size : Nat) (order : List OpTypePattern) : Prop :=
  order = laidOut pattern.children size ∨
    isCommutativeOp pattern.op = true ∧ size = 2 ∧ order = (laidOut pattern.children size).reverse

/-- The first child with a star stands for several inputs, or for one as the others. -/
def StarsInOrder (children : List OpTypePattern) (size : Nat) : Prop :=
  ∀ star variadic, children.find? (fun child => endsWithStar child.op) = some star → star.op = "*" →
    variadic ∈ children → isVariadic variadic.op = true → size = children.length

theorem laidOut_of_none {children : List OpTypePattern} (size : Nat)
    (none_ : ∀ child ∈ children, isVariadic child.op = false) : laidOut children size = children := by
  unfold laidOut
  rw [List.flatMap_congr (g := fun child => [child])
    (fun child mem => by rw [none_ child mem, if_neg Bool.false_ne_true])]
  exact List.flatMap_singleton' children

theorem laidOut_of_one {before after : List OpTypePattern} {child : OpTypePattern} (size : Nat)
    (isOne : isVariadic child.op = true) (noneBefore : ∀ other ∈ before, isVariadic other.op = false)
    (noneAfter : ∀ other ∈ after, isVariadic other.op = false) : laidOut (before ++ child :: after) size =
      before ++ (List.replicate (size - (before.length + after.length)) child ++ after) := by
  have isLength : (before ++ child :: after).length - 1 = before.length + after.length := by
    rw [List.length_append, List.length_cons]
    omega
  unfold laidOut
  rw [isLength, List.flatMap_append, List.flatMap_cons, if_pos isOne]
  rw [List.flatMap_congr (l := before) (g := fun other => [other])
      (fun other mem => by rw [noneBefore other mem, if_neg Bool.false_ne_true]),
    List.flatMap_congr (l := after) (g := fun other => [other])
      (fun other mem => by rw [noneAfter other mem, if_neg Bool.false_ne_true]),
    List.flatMap_singleton', List.flatMap_singleton']

theorem map_range_getElem? {α : Type} (vector : List α) :
    (List.range vector.length).map (vector[·]?) = vector.map some := by
  apply List.ext_getElem?
  grind

theorem map_indices {α : Type} (before after : List α) (child : α) (repeated : Nat) :
    ((List.range before.length ++ List.replicate repeated before.length ++
        (List.range after.length).map (before.length + 1 + ·)).map ((before ++ child :: after)[·]?)) =
      (before ++ (List.replicate repeated child ++ after)).map some := by
  rw [List.map_append, List.map_append, List.map_append, List.map_append, ← map_range_getElem? before,
    ← map_range_getElem? after, List.map_replicate, List.map_replicate, List.map_map, List.append_assoc]
  congr 1
  · apply List.map_congr_left
    intro index mem
    exact List.getElem?_append_left (List.mem_range.1 mem)
  · congr 1
    · congr 1
      rw [List.getElem?_append_right (Nat.le_refl _), Nat.sub_self]
      rfl
    · apply List.map_congr_left
      grind

theorem countP_map_op (children : List OpTypePattern) :
    (children.map OpTypePattern.op).countP (fun op => op ≠ "*" ∧ endsWithStar op = true) =
      children.countP fun child => isVariadic child.op := by
  rw [List.countP_map]
  apply List.countP_congr
  intro child _
  simp [isVariadic]

theorem hasUndeterminedSameTypeInputs_eq_ok {children : List OpTypePattern} {hasInputs : Bool}
    (checked : hasUndeterminedSameTypeInputs (children.map OpTypePattern.op) = .ok hasInputs) :
    (children.countP fun child => isVariadic child.op) = if hasInputs then 1 else 0 := by
  unfold hasUndeterminedSameTypeInputs at checked
  rw [countP_map_op] at checked
  obtain ⟨_, atMostOne, checked⟩ := bind_ok.1 checked
  have bound := require_eq_ok.1 atMostOne
  cases hasInputs with
  | true =>
    rw [if_pos rfl]
    exact eq_of_beq (Except.ok.inj checked)
  | false =>
    rw [if_neg Bool.false_ne_true]
    have other := ne_of_beq_false (Except.ok.inj checked)
    omega

/-- The children that the code gives the inputs, in order. -/
inductive CodeOrder (children : List OpTypePattern) (size : Nat) : List OpTypePattern → Prop
  | fixed (none_ : ∀ child ∈ children, isVariadic child.op = false) (sized : size = children.length) :
    CodeOrder children size children
  | repeated (before after : List OpTypePattern) (star : OpTypePattern)
    (isChildren : children = before ++ star :: after) (isStar : endsWithStar star.op = true)
    (noneBefore : ∀ child ∈ before, endsWithStar child.op = false)
    (one : (children.countP fun child => isVariadic child.op) = 1)
    (enough : before.length + after.length ≤ size) :
    CodeOrder children size
      (before ++ (List.replicate (size - (before.length + after.length)) star ++ after))

theorem getChildrenIndices_spec {children : List OpTypePattern} {size : Nat} {indices : List Nat}
    (ok : getChildrenIndices (children.map OpTypePattern.op) size = .ok indices)
    (sized : (children.countP fun child => isVariadic child.op) = 0 → size = children.length) :
    ∃ order, CodeOrder children size order ∧ indices.map (children[·]?) = order.map some := by
  unfold getChildrenIndices at ok
  obtain ⟨hasInputs, checked, ok⟩ := bind_ok.1 ok
  have count := hasUndeterminedSameTypeInputs_eq_ok checked
  cases hasInputs with
  | false =>
    rw [if_neg Bool.false_ne_true] at count ok
    cases ok
    refine ⟨children, .fixed ?_ (sized count), ?_⟩
    · intro child mem
      exact Bool.eq_false_iff.2 (List.countP_eq_zero.1 count child mem)
    · rw [sized count]
      exact map_range_getElem? children
  | true =>
    rw [if_pos rfl] at count ok
    obtain ⟨_, enough, ok⟩ := bind_ok.1 ok
    have bound := require_eq_ok.1 enough
    cases ok
    have found : ∃ star, children.find? (fun child => endsWithStar child.op) = some star := by
      obtain ⟨child, mem, variadic⟩ := List.countP_pos_iff.1 (count ▸ Nat.one_pos)
      rw [← Option.isSome_iff_exists, List.find?_isSome]
      exact ⟨child, mem, (Bool.and_eq_true .. ▸ variadic).2⟩
    obtain ⟨star, isFirst⟩ := found
    obtain ⟨isStar, before, after, isChildren, noneBefore⟩ := List.find?_eq_some_iff_append.1 isFirst
    have noneBefore' : ∀ child ∈ before, endsWithStar child.op = false := by
      intro child mem
      simpa using noneBefore child mem
    have isLength : children.length = before.length + after.length + 1 := by
      rw [isChildren, List.length_append, List.length_cons]
      omega
    rw [List.length_map] at bound
    have first : (children.map OpTypePattern.op).findIdx endsWithStar = before.length := by
      rw [isChildren, List.map_append, List.map_cons]
      grind
    refine ⟨_, .repeated before after star isChildren isStar noneBefore' count (by omega), ?_⟩
    rw [List.length_map, first, isLength, Nat.add_sub_cancel]
    have rest : size - (before.length + (size - (before.length + after.length))) = after.length := by omega
    rw [rest, isChildren]
    exact map_indices before after star _

/-- How often the variadic child stands in an arrangement. -/
theorem countP_laidOut {children : List OpTypePattern} {size : Nat}
    (one : (children.countP fun child => isVariadic child.op) = 1) :
    ((laidOut children size).countP fun child => isVariadic child.op) = size - (children.length - 1) := by
  have count : ∀ part : List OpTypePattern, ((part.flatMap fun child =>
      if isVariadic child.op then List.replicate (size - (children.length - 1)) child else [child]).countP
        fun child => isVariadic child.op) =
      (part.countP fun child => isVariadic child.op) * (size - (children.length - 1)) := by
    intro part
    induction part with
    | nil => exact (Nat.zero_mul _).symm
    | cons head tail ih =>
      rw [List.flatMap_cons, List.countP_append, ih]
      by_cases variadic : isVariadic head.op = true
      · rw [if_pos variadic, List.countP_replicate, if_pos variadic, List.countP_cons_of_pos (p := fun child : OpTypePattern => isVariadic child.op) variadic,
          Nat.add_mul, Nat.one_mul, Nat.add_comm]
      · rw [if_neg variadic, List.countP_singleton, if_neg variadic, Nat.zero_add,
          List.countP_cons_of_neg (p := fun child : OpTypePattern => isVariadic child.op) variadic]
  unfold laidOut
  rw [count, one, Nat.one_mul]

theorem arranges_iff {pattern : OpTypePattern} {size : Nat} {order arranged : List OpTypePattern}
    (isOrder : CodeOrder pattern.children size order) (isArranged : arranged = order ∨
      isCommutativeOp pattern.op = true ∧ size = 2 ∧ arranged = order.reverse) :
    Arranges pattern size arranged ↔ StarsInOrder pattern.children size := by
  have whenRight : order = laidOut pattern.children size → Arranges pattern size arranged := by
    intro right
    unfold Arranges
    rw [← right]
    exact isArranged
  cases isOrder with
  | fixed none_ sized =>
    refine iff_of_true (whenRight (laidOut_of_none size none_).symm) ?_
    intro star variadic _ _ mem isOne
    rw [none_ variadic mem] at isOne
    cases isOne
  | repeated before after star isChildren isStar noneBefore one enough =>
    have notBefore : ∀ child ∈ before, isVariadic child.op = false := by
      intro child mem
      unfold isVariadic
      rw [noneBefore child mem, Bool.and_false]
    have beforeCount : (before.countP fun child => isVariadic child.op) = 0 := by
      rw [List.countP_eq_zero]
      intro child mem
      rw [notBefore child mem]
      exact Bool.false_ne_true
    have first : pattern.children.find? (fun child => endsWithStar child.op) = some star := by
      rw [isChildren]
      exact List.find?_eq_some_iff_append.2
        ⟨isStar, before, after, rfl, fun child mem => by rw [noneBefore child mem]; rfl⟩
    have isLength : pattern.children.length = before.length + after.length + 1 := by
      rw [isChildren, List.length_append, List.length_cons]
      omega
    by_cases isOne : isVariadic star.op = true
    · have noneAfter : ∀ child ∈ after, isVariadic child.op = false := by
        simp_all
      refine iff_of_true (whenRight ?_) ?_
      · rw [isChildren]
        exact (laidOut_of_one size isOne notBefore noneAfter).symm
      · intro other variadic isFirst plain
        rw [first] at isFirst
        cases isFirst
        unfold isVariadic at isOne
        rw [plain] at isOne
        cases isOne
    · have plain : star.op = "*" := by
        by_contra other
        apply isOne
        unfold isVariadic
        rw [isStar, decide_eq_true other]
        rfl
      obtain ⟨variadic, mem, variadicOne⟩ := List.countP_pos_iff.1 (one ▸ Nat.one_pos)
      constructor
      · intro right
        -- The variadic child stands once in the order of the code.
        have orderCount : ((before ++ (List.replicate (size - (before.length + after.length)) star ++
            after)).countP fun child => isVariadic child.op) = 1 := by
          have total := one
          rw [isChildren, List.countP_append, List.countP_cons_of_neg (p := fun child : OpTypePattern => isVariadic child.op) isOne] at total
          rw [List.countP_append, List.countP_append, List.countP_replicate, if_neg isOne, Nat.zero_add]
          exact total
        have arrangedCount : (arranged.countP fun child => isVariadic child.op) = 1 := by
          rcases isArranged with same | ⟨_, _, reversed⟩
          · rw [same, orderCount]
          · rw [reversed, List.countP_reverse, orderCount]
        have layoutCount := @countP_laidOut _ size one
        intro _ _ _ _ _ _
        rcases right with same | ⟨_, _, reversed⟩
        · rw [same, layoutCount] at arrangedCount
          omega
        · rw [reversed, List.countP_reverse, layoutCount] at arrangedCount
          omega
      · intro inOrder
        have sized := inOrder star variadic first plain mem variadicOne
        apply whenRight
        have single : size - (before.length + after.length) = 1 := by omega
        have laid : laidOut pattern.children size = pattern.children := by
          unfold laidOut
          simp_all
        rw [laid, single, isChildren]
        rfl

/-! ## Assignments -/

/-- `NodeViewMatch`: a node for an occurrence of a pattern, and for the occurrences below it. -/
inductive NodeViewMatch where
  | node (pattern : OpTypePattern) (nodeIndex : Nat) (children : List NodeViewMatch)

namespace NodeViewMatch

def pattern : NodeViewMatch → OpTypePattern
  | .node pattern _ _ => pattern

def nodeIndex : NodeViewMatch → Nat
  | .node _ nodeIndex _ => nodeIndex

def children : NodeViewMatch → List NodeViewMatch
  | .node _ _ children => children

mutual

/-- The occurrences and their nodes, as the matcher meets them. -/
def visits : NodeViewMatch → List Visit
  | .node pattern nodeIndex children => (pattern, nodeIndex) :: visitsOf children

def visitsOf : List NodeViewMatch → List Visit
  | [] => []
  | child :: children => visits child ++ visitsOf children

end

theorem visitsOf_eq_flatMap (children : List NodeViewMatch) : visitsOf children = children.flatMap visits := by
  induction children with
  | nil => rfl
  | cons child children ih =>
    rw [visitsOf, ih, List.flatMap_cons]

end NodeViewMatch

namespace MutableGraphView

variable (view : MutableGraphView)

/-- The nodes that the regular fanins of a node name. -/
def faninNodes (nodeIndex : Nat) : Option (List Nat) :=
  view.nodes[nodeIndex]?.map fun node => node.regularFanins.map RegularFanin.nodeIndex

/-- Every occurrence has a node with one of its operators, and the fanins of that node are
those of the occurrences below. -/
inductive IsEmbedding : NodeViewMatch → Prop
  | node (pattern : OpTypePattern) (nodeIndex : Nat) (children : List NodeViewMatch) (op : String)
    (isOp : view.opOf nodeIndex = .ok op) (accepted : opMatches pattern.op op = true)
    (leaf : pattern.children = [] → children = [])
    (inner : pattern.children ≠ [] → view.faninNodes nodeIndex = some (children.map NodeViewMatch.nodeIndex) ∧
        Arranges pattern children.length (children.map NodeViewMatch.pattern))
    (each : ∀ child ∈ children, IsEmbedding child) : IsEmbedding (.node pattern nodeIndex children)

mutual

def assignment : OpTypePattern → Nat → NodeViewMatch
  | ⟨op, label, nodeStatus, children⟩ => fun nodeIndex =>
    .node ⟨op, label, nodeStatus, children⟩ nodeIndex <|
      match view.nodes[nodeIndex]? with
      | none => []
      | some node =>
        match view.alignChildren op (children.map OpTypePattern.op)
          (node.regularFanins.map RegularFanin.nodeIndex) with
        | .ok (some pairs) =>
          pairs.flatMap fun pair => ((childAssignments children)[pair.1]?.map (· pair.2)).toList
        | _ => []

def childAssignments : List OpTypePattern → List (Nat → NodeViewMatch)
  | [] => []
  | child :: children => assignment child :: childAssignments children

end

theorem childAssignments_eq_map (children : List OpTypePattern) :
    view.childAssignments children = children.map view.assignment := by
  induction children with
  | nil => rfl
  | cons child children ih =>
    rw [childAssignments, ih, List.map_cons]

theorem visits_assignment (pattern : OpTypePattern) (nodeIndex : Nat) :
    (view.assignment pattern nodeIndex).visits = view.walk pattern nodeIndex := by
  induction pattern using OpTypePattern.induction generalizing nodeIndex with
  | node op label nodeStatus children each =>
    unfold assignment walk NodeViewMatch.visits
    rw [NodeViewMatch.visitsOf_eq_flatMap]
    congr 1
    cases view.nodes[nodeIndex]? with
    | none => rfl
    | some node =>
      dsimp only
      rcases view.alignChildren op (children.map OpTypePattern.op)
        (node.regularFanins.map RegularFanin.nodeIndex) with failure | ⟨_ | pairs⟩
      · rfl
      · rfl
      · dsimp only
        rw [List.flatMap_assoc]
        apply List.flatMap_congr
        intro pair _
        rw [childAssignments_eq_map, childWalks_eq_map, List.getD_eq_getElem?_getD, List.getElem?_map,
          List.getElem?_map]
        cases atChild : children[pair.1]? with
        | none => rfl
        | some child =>
          change List.flatMap NodeViewMatch.visits [view.assignment child pair.2] = view.walk child pair.2
          rw [List.flatMap_singleton]
          exact each child (List.mem_of_getElem? atChild) pair.2

@[simp] theorem pattern_assignment (pattern : OpTypePattern) (nodeIndex : Nat) :
    (view.assignment pattern nodeIndex).pattern = pattern := by
  cases pattern
  rfl

@[simp] theorem nodeIndex_assignment (pattern : OpTypePattern) (nodeIndex : Nat) :
    (view.assignment pattern nodeIndex).nodeIndex = nodeIndex := by
  cases pattern
  rfl

/-! ## Matches -/

/-- A visited node whose inputs are taken in the order of the children. -/
def Settled (visit : Visit) : Prop :=
  ∀ fanins, view.faninNodes visit.2 = some fanins → StarsInOrder visit.1.children fanins.length

variable {view}

/-- The inputs with their children, in the order of the code or exchanged. -/
structure Aligned (op : String) (children : List OpTypePattern) (fanins : List Nat)
    (pairs : List (Nat × Nat)) (order arranged : List OpTypePattern) : Prop where
  isOrder : CodeOrder children fanins.length order
  isArranged : arranged = order ∨ isCommutativeOp op = true ∧ fanins.length = 2 ∧ arranged = order.reverse
  ofInputs : pairs.map Prod.snd = fanins
  ofChildren : pairs.map (fun pair => children[pair.1]?) = arranged.map some

theorem map_zip_indices {indices fanins : List Nat} {children order : List OpTypePattern}
    (isLength : indices.length = fanins.length) (isOrder : indices.map (children[·]?) = order.map some) :
    (indices.zip fanins).map Prod.snd = fanins ∧
      (indices.zip fanins).map (fun pair => children[pair.1]?) = order.map some := by
  constructor
  · exact List.map_snd_zip (Nat.le_of_eq isLength.symm)
  · rw [← isOrder]
    have first : (indices.zip fanins).map Prod.fst = indices := List.map_fst_zip (Nat.le_of_eq isLength)
    conv_rhs => rw [← first, List.map_map]
    rfl

theorem alignChildren_spec {op : String} {children : List OpTypePattern} {fanins : List Nat} {pairs : List (Nat × Nat)}
    (aligned : view.alignChildren op (children.map OpTypePattern.op) fanins = .ok (some pairs)) :
    ∃ order arranged, Aligned op children fanins pairs order arranged := by
  unfold alignChildren at aligned
  obtain ⟨hasInputs, checked, aligned⟩ := bind_ok.1 aligned
  have count := hasUndeterminedSameTypeInputs_eq_ok checked
  obtain ⟨sized, aligned⟩ := of_guard aligned
  obtain ⟨indices, isIndices, aligned⟩ := bind_ok.1 aligned
  obtain ⟨order, isOrder, ofChildren⟩ := getChildrenIndices_spec isIndices (by
    intro none_
    have noInputs : hasInputs = false := by
      cases hasInputs with
      | false => rfl
      | true =>
        rw [none_] at count
        cases count
    have same := not_and.1 sized noInputs
    rw [List.length_map] at same
    exact not_not.1 same)
  have orderLength : order.length = fanins.length := by
    cases isOrder with
    | fixed none_ sized => exact sized.symm
    | repeated before after star isChildren isStar noneBefore one enough =>
      rw [List.length_append, List.length_append, List.length_replicate]
      omega
  have isLength : indices.length = fanins.length := by
    rw [← orderLength, ← List.length_map (f := (children[·]?)), ofChildren, List.length_map]
  have inOrder := map_zip_indices isLength ofChildren
  have straight : Aligned op children fanins (indices.zip fanins) order order :=
    ⟨isOrder, Or.inl rfl, inOrder.1, inOrder.2⟩
  split at aligned
  next =>
    split at aligned
    next commutative =>
      obtain ⟨op0, _, aligned⟩ := bind_ok.1 aligned
      obtain ⟨op1, _, aligned⟩ := bind_ok.1 aligned
      obtain ⟨expected0, _, aligned⟩ := bind_ok.1 aligned
      obtain ⟨expected1, _, aligned⟩ := bind_ok.1 aligned
      split at aligned
      · cases aligned
        have exchanged : indices.reverse.map (children[·]?) = order.reverse.map some := by
          rw [List.map_reverse, ofChildren, List.map_reverse]
        have sameLength := (@List.length_reverse _ indices).trans isLength
        exact ⟨order, order.reverse, isOrder, Or.inr ⟨commutative, rfl, rfl⟩,
          (map_zip_indices sameLength exchanged).1, (map_zip_indices sameLength exchanged).2⟩
      · cases aligned
        exact ⟨order, order, straight⟩
    next =>
      cases aligned
      exact ⟨order, order, straight⟩
  next =>
    cases aligned
    exact ⟨order, order, straight⟩

/-- The trees below an occurrence are its children on the inputs of its node. -/
theorem flatMap_assignments {children arranged : List OpTypePattern} {fanins : List Nat}
    {pairs : List (Nat × Nat)} (ofInputs : pairs.map Prod.snd = fanins)
    (ofChildren : pairs.map (fun pair => children[pair.1]?) = arranged.map some) :
    (pairs.flatMap fun pair => ((view.childAssignments children)[pair.1]?.map (· pair.2)).toList) =
      (arranged.zip fanins).map fun entry => view.assignment entry.1 entry.2 := by
  induction pairs generalizing arranged fanins with
  | nil =>
    rw [← ofInputs, List.map_nil, List.zip_nil_right]
    rfl
  | cons pair rest ih =>
    cases arranged with
    | nil => cases ofChildren
    | cons child others =>
      rw [List.map_cons, List.map_cons] at ofChildren
      obtain ⟨isChild, ofRest⟩ := List.cons.inj ofChildren
      rw [List.flatMap_cons, childAssignments_eq_map, List.getElem?_map, isChild,
        ← childAssignments_eq_map, ih rfl ofRest, ← ofInputs]
      rfl

theorem Aligned.exists_pair {op : String} {children : List OpTypePattern} {fanins : List Nat}
    {pairs : List (Nat × Nat)} {order arranged : List OpTypePattern}
    (aligned : Aligned op children fanins pairs order arranged) {entry : OpTypePattern × Nat}
    (mem : entry ∈ arranged.zip fanins) : ∃ pair ∈ pairs, children[pair.1]? = some entry.1 ∧ pair.2 = entry.2 := by
  have together : pairs.map (fun pair => (children[pair.1]?, pair.2)) =
      (arranged.zip fanins).map fun entry => (some entry.1, entry.2) := by
    have zipped : (pairs.map fun pair => children[pair.1]?).zip (pairs.map Prod.snd) =
        pairs.map fun pair => (children[pair.1]?, pair.2) := List.zip_map'
    rw [aligned.ofChildren, aligned.ofInputs, List.zip_map_left] at zipped
    rw [← zipped]
    rfl
  have inMap : (some entry.1, entry.2) ∈ pairs.map fun pair => (children[pair.1]?, pair.2) := by
    rw [together]
    exact List.mem_map_of_mem mem
  obtain ⟨pair, inPairs, isEntry⟩ := List.mem_map.1 inMap
  exact ⟨pair, inPairs, congrArg Prod.fst isEntry, congrArg Prod.snd isEntry⟩

theorem assignment_leaf (op label : String) (nodeStatus : NodeStatus) (nodeIndex : Nat) :
    view.assignment ⟨op, label, nodeStatus, []⟩ nodeIndex = .node ⟨op, label, nodeStatus, []⟩ nodeIndex [] := by
  unfold assignment
  congr 1
  cases view.nodes[nodeIndex]? with
  | none => rfl
  | some node =>
    dsimp only
    split
    · exact List.flatMap_eq_nil_iff.2 fun pair _ => rfl
    · rfl

theorem matchChildren_each {faninChecking : Bool} {children : List OpTypePattern} {pairs : List (Nat × Nat)}
    (matched : matchChildren (view.childMatchers faninChecking children) pairs books = .ok (some books')) :
    ∀ pair ∈ pairs, ∀ child, children[pair.1]? = some child → ∃ before after,
      view.doesOpTypePatternMatch faninChecking child pair.2 before = .ok (some after) := by
  induction pairs generalizing books with
  | nil => exact fun pair mem => by cases mem
  | cons pair rest ih =>
    unfold matchChildren at matched
    obtain ⟨matcher, atPosition, matched⟩ := bind_ok.1 matched
    obtain ⟨result, childMatched, matched⟩ := bind_ok.1 matched
    rw [fetch_eq_ok, childMatchers_eq_map, List.getElem?_map] at atPosition
    cases result with
    | none => cases matched
    | some next =>
      intro other mem child isChild
      rcases List.mem_cons.1 mem with isFirst | later
      · rw [isFirst] at isChild ⊢
        rw [isChild] at atPosition
        cases atPosition
        exact ⟨_, _, childMatched⟩
      · exact ih matched other later child isChild

section Node

variable {pattern : OpTypePattern} {nodeIndex : Nat} {op : String} {fanins : List Nat}
  {pairs : List (Nat × Nat)} {order arranged : List OpTypePattern}

/-- The trees on the inputs of a node. -/
def below (view : MutableGraphView) (arranged : List OpTypePattern) (fanins : List Nat) : List NodeViewMatch :=
  (arranged.zip fanins).map fun entry => view.assignment entry.1 entry.2

theorem map_below (isLength : arranged.length = fanins.length) :
    (below view arranged fanins).map NodeViewMatch.pattern = arranged ∧
      (below view arranged fanins).map NodeViewMatch.nodeIndex = fanins := by
  unfold below
  constructor
  · rw [List.map_map]
    refine Eq.trans (List.map_congr_left fun entry _ => ?_) (List.map_fst_zip (Nat.le_of_eq isLength))
    exact view.pattern_assignment entry.1 entry.2
  · rw [List.map_map]
    refine Eq.trans (List.map_congr_left fun entry _ => ?_) (List.map_snd_zip (Nat.le_of_eq isLength.symm))
    exact view.nodeIndex_assignment entry.1 entry.2

theorem isEmbedding_node_iff (isOp : view.opOf nodeIndex = .ok op) (accepted : opMatches pattern.op op = true)
    (hasChildren : pattern.children ≠ []) (isFanins : view.faninNodes nodeIndex = some fanins)
    (aligned : Aligned pattern.op pattern.children fanins pairs order arranged) :
    view.IsEmbedding (.node pattern nodeIndex (below view arranged fanins)) ↔
      view.Settled (pattern, nodeIndex) ∧ ∀ child ∈ below view arranged fanins, view.IsEmbedding child := by
  have isLength : arranged.length = fanins.length := by
    rw [← aligned.ofInputs, ← List.length_map (f := some), ← aligned.ofChildren, List.length_map, List.length_map]
  obtain ⟨patterns, nodes⟩ := @map_below view _ _ isLength
  have belowLength : (below view arranged fanins).length = fanins.length := by
    rw [← List.length_map (f := NodeViewMatch.nodeIndex), nodes]
  have arranges := arranges_iff aligned.isOrder aligned.isArranged
  have settled : view.Settled (pattern, nodeIndex) ↔ StarsInOrder pattern.children fanins.length := by
    unfold Settled
    dsimp only
    rw [isFanins]
    constructor
    · intro holds
      exact holds fanins rfl
    · intro inOrder other isOther
      cases isOther
      exact inOrder
  rw [settled, ← arranges]
  constructor
  · intro embedded
    cases embedded with
    | node _ _ _ op' isOp' accepted' leaf inner each =>
      refine ⟨?_, each⟩
      have right := (inner hasChildren).2
      rwa [patterns, belowLength] at right
  · intro both
    apply IsEmbedding.node pattern nodeIndex _ op isOp accepted
    · intro noChildren
      exact absurd noChildren hasChildren
    · intro _
      rw [patterns, belowLength, nodes]
      exact ⟨isFanins, both.1⟩
    · exact both.2

end Node

/-- The assignment of a match is an embedding if the nodes it visits are settled. -/
def EmbedsIffSettled (view : MutableGraphView) (faninChecking : Bool) (pattern : OpTypePattern) : Prop :=
  ∀ (nodeIndex : Nat) (books books' : Bookkeeping),
    view.doesOpTypePatternMatch faninChecking pattern nodeIndex books = .ok (some books') →
    (view.IsEmbedding (view.assignment pattern nodeIndex) ↔
      ∀ visit ∈ (view.assignment pattern nodeIndex).visits, view.Settled visit)

theorem match_embedsIffSettled (faninChecking : Bool) (pattern : OpTypePattern) :
    view.EmbedsIffSettled faninChecking pattern := by
  induction pattern using OpTypePattern.induction with
  | node op label nodeStatus children each =>
    intro nodeIndex books books' matched
    obtain ⟨node, nodeOp, next, atNode, isOp, accepted, -, inside⟩ := doesOpTypePatternMatch_eq_some matched
    have opAccepted : opMatches op nodeOp = true := by
      unfold acceptsNode at accepted
      exact (Bool.and_eq_true .. ▸ accepted).2
    rcases inside with ⟨rfl, -⟩ | ⟨hasChildren, pairs, alignedOk, matched⟩
    · rw [assignment_leaf]
      refine iff_of_true ?_ ?_
      · exact .node _ nodeIndex [] nodeOp isOp opAccepted (fun _ => rfl)
          (fun hasChildren => absurd rfl hasChildren) (fun child mem => by cases mem)
      · intro visit mem
        rw [List.mem_singleton.1 mem]
        intro fanins _ star variadic isFirst
        cases isFirst
    · obtain ⟨order, arranged, isAligned⟩ := alignChildren_spec alignedOk
      have isFanins : view.faninNodes nodeIndex = some (node.regularFanins.map RegularFanin.nodeIndex) := by
        unfold faninNodes
        rw [atNode]
        rfl
      have isAssignment : view.assignment ⟨op, label, nodeStatus, children⟩ nodeIndex =
          .node ⟨op, label, nodeStatus, children⟩ nodeIndex
            (below view arranged (node.regularFanins.map RegularFanin.nodeIndex)) := by
        unfold assignment
        rw [atNode]
        dsimp only
        rw [alignedOk]
        dsimp only
        rw [flatMap_assignments isAligned.ofInputs isAligned.ofChildren]
        rfl
      rw [isAssignment, isEmbedding_node_iff isOp opAccepted hasChildren isFanins isAligned]
      unfold NodeViewMatch.visits
      rw [NodeViewMatch.visitsOf_eq_flatMap, List.forall_mem_cons]
      apply and_congr_right
      intro _
      have ofChildren := matchChildren_each matched
      have eachBelow : ∀ tree ∈ below view arranged (node.regularFanins.map RegularFanin.nodeIndex),
          (view.IsEmbedding tree ↔ ∀ visit ∈ tree.visits, view.Settled visit) := by
        intro tree mem
        obtain ⟨entry, inZip, isTree⟩ := List.mem_map.1 mem
        obtain ⟨pair, inPairs, isChild, isFanin⟩ := isAligned.exists_pair inZip
        obtain ⟨before, after, childMatched⟩ := ofChildren pair inPairs entry.1 isChild
        rw [isFanin] at childMatched
        rw [← isTree]
        exact each entry.1 (List.mem_of_getElem? isChild) entry.2 before after childMatched
      grind

end MutableGraphView

/-! ## Labels -/

/-- The labels of visits with their nodes, given the labels bound before. -/
def labelled : List String → List Visit → List (String × Nat)
  | _, [] => []
  | labels, (pattern, nodeIndex) :: rest =>
    let label := resolveLabel labels pattern.label
    (label, nodeIndex) :: labelled (if label ∈ labels then labels else label :: labels) rest

theorem labelled_cons (labels : List String) (visit : Visit) (rest : List Visit) :
    labelled labels (visit :: rest) = (resolveLabel labels visit.1.label, visit.2) ::
      labelled (if resolveLabel labels visit.1.label ∈ labels then labels
        else resolveLabel labels visit.1.label :: labels) rest := rfl

theorem record_lookup {pattern : OpTypePattern} {nodeIndex : Nat}
    (recorded : books.record pattern nodeIndex = some books') :
    (∀ label node, books'.nodeLabelToIndex.lookup label = some node ↔
      books.nodeLabelToIndex.lookup label = some node ∨
        label = resolveLabel books.nodeLabelToIndex.keys pattern.label ∧ node = nodeIndex) ∧
      books'.nodeLabelToIndex.keys =
        (if resolveLabel books.nodeLabelToIndex.keys pattern.label ∈ books.nodeLabelToIndex.keys then
          books.nodeLabelToIndex.keys
        else resolveLabel books.nodeLabelToIndex.keys pattern.label :: books.nodeLabelToIndex.keys) := by
  unfold Bookkeeping.record at recorded
  dsimp only at recorded
  generalize resolveLabel books.nodeLabelToIndex.keys pattern.label = resolved at recorded ⊢
  split at recorded
  next isNew =>
    cases recorded
    have notKey : resolved ∉ books.nodeLabelToIndex.keys := AList.lookup_eq_none.1 isNew
    constructor
    · intro label node
      by_cases isLabel : label = resolved
      · rw [isLabel, AList.lookup_insert, isNew]
        grind
      · rw [AList.lookup_insert_ne isLabel]
        constructor
        · exact Or.inl
        · intro found
          exact found.resolve_right fun same => isLabel same.1
    · rw [AList.keys_insert, List.erase_of_not_mem notKey, if_neg notKey]
  next bound isBound =>
    split at recorded
    next same =>
      cases recorded
      have isKey : resolved ∈ books.nodeLabelToIndex.keys := AList.lookup_isSome.1 (by rw [isBound]; rfl)
      constructor
      · simp_all
      · rw [if_pos isKey]
    next => cases recorded

/-- The labels that visits bind are those they were bound to before or bind first. -/
theorem recordAll_lookup {visits : List Visit}
    (recorded : recordAll books visits = some books') (label : String) (node : Nat) :
    books'.nodeLabelToIndex.lookup label = some node ↔ books.nodeLabelToIndex.lookup label = some node ∨
        (label, node) ∈ labelled books.nodeLabelToIndex.keys visits := by
  induction visits generalizing books with
  | nil =>
    cases recorded
    exact ⟨Or.inl, fun found => found.resolve_right List.not_mem_nil⟩
  | cons visit rest ih =>
    unfold recordAll at recorded
    rw [List.foldlM_cons] at recorded
    obtain ⟨next, stepped, recorded⟩ := Option.bind_eq_some_iff.1 recorded
    obtain ⟨ofNext, nextKeys⟩ := record_lookup stepped
    rw [ih recorded, ofNext, nextKeys, labelled_cons, List.mem_cons, Prod.mk.injEq, or_assoc]

theorem mem_labelled_of_plain {visits : List Visit} (labels : List String) {visit : Visit}
    (visited : visit ∈ visits) (plain : endsWithStar visit.1.label = false) :
    (visit.1.label, visit.2) ∈ labelled labels visits := by
  induction visits generalizing labels with
  | nil => cases visited
  | cons head rest ih =>
    rw [labelled_cons]
    rcases List.mem_cons.1 visited with isHead | later
    · rw [← isHead]
      have resolved : resolveLabel labels visit.1.label = visit.1.label := by
        unfold resolveLabel
        exact if_neg (Bool.eq_false_iff.1 plain)
      rw [resolved]
      exact List.mem_cons_self
    · exact List.mem_cons_of_mem _ (ih _ later)

/-- The label map is the assignment, and a plain label stands for one node. -/
structure LabelsOf (labels : AList fun _ : String => Nat) (visits : List Visit) : Prop where
  map : ∀ label node, labels.lookup label = some node ↔ (label, node) ∈ labelled [] visits
  plain : ∀ first ∈ visits, ∀ second ∈ visits, endsWithStar first.1.label = false →
    first.1.label = second.1.label → first.2 = second.2

theorem labelsOf_recordAll {visits : List Visit}
    (recorded : recordAll {} visits = some books) : LabelsOf books.nodeLabelToIndex visits := by
  have bound : ∀ label node, books.nodeLabelToIndex.lookup label = some node ↔
      (label, node) ∈ labelled [] visits := by
    intro label node
    rw [recordAll_lookup recorded]
    constructor
    · intro found
      rcases found with before | inVisits
      · cases before
      · exact inVisits
    · exact Or.inr
  refine ⟨bound, ?_⟩
  intro first firstVisited second secondVisited plain same
  have ofFirst := (bound _ _).2 (mem_labelled_of_plain [] firstVisited plain)
  have ofSecond := (bound _ _).2 (mem_labelled_of_plain [] secondVisited (same ▸ plain))
  rw [same, ofSecond] at ofFirst
  exact (Option.some.inj ofFirst).symm

/-! ## Embeddings -/

namespace MutableGraphView

variable {view : MutableGraphView}

structure IsMatch (view : MutableGraphView) (pattern : OpTypePattern) (nodeIndex : Nat)
    (tree : NodeViewMatch) (labels : AList fun _ : String => Nat) : Prop where
  ofPattern : tree.pattern = pattern
  ofNode : tree.nodeIndex = nodeIndex
  embedded : view.IsEmbedding tree
  labels : LabelsOf labels tree.visits

/-- The assignment of a match is an embedding with the label map of the match exactly when
no visited node has inputs taken from its variadic child. -/
theorem doesOpTypePatternMatch_isMatch_iff {faninChecking : Bool} {pattern : OpTypePattern}
    {nodeIndex : Nat} {books : Bookkeeping}
    (matched : view.doesOpTypePatternMatch faninChecking pattern nodeIndex {} = .ok (some books)) :
    view.IsMatch pattern nodeIndex (view.assignment pattern nodeIndex) books.nodeLabelToIndex ↔
      ∀ visit ∈ view.walk pattern nodeIndex, view.Settled visit := by
  have embeds := match_embedsIffSettled faninChecking pattern nodeIndex {} books matched
  obtain ⟨recorded, _⟩ := view.match_follows faninChecking pattern nodeIndex {} books matched
  rw [← visits_assignment] at recorded ⊢
  rw [← embeds]
  constructor
  · intro isMatch
    exact isMatch.embedded
  · intro embedded
    exact ⟨view.pattern_assignment pattern nodeIndex, view.nodeIndex_assignment pattern nodeIndex, embedded,
      labelsOf_recordAll recorded⟩

/-- A sum of convolutions and of one more value. -/
def sumPattern : OpTypePattern :=
  ⟨"AddN", "sum", .kReplace, [⟨"Conv2D*", "conv*", .kRemain, []⟩, ⟨"*", "rest", .kRemain, []⟩]⟩

/-- The same, with the other value in front. -/
def frontPattern : OpTypePattern :=
  ⟨"AddN", "sum", .kReplace, [⟨"*", "rest", .kRemain, []⟩, ⟨"Conv2D*", "conv*", .kRemain, []⟩]⟩

def sumGraph (inputs : List String) : GraphDef :=
  [⟨"c", "Conv2D", "", [], ∅⟩, ⟨"d", "Conv2D", "", [], ∅⟩, ⟨"r", "Relu", "", [], ∅⟩,
    ⟨"s", "AddN", "", inputs.map fun input => ⟨input, .port 0⟩, ∅⟩]

theorem sum_is_match : ∃ view books, construct (sumGraph ["c", "d", "r"]) = .ok view ∧
    view.doesOpTypePatternMatch true sumPattern 3 {} = .ok (some books) ∧
    view.IsMatch sumPattern 3 (view.assignment sumPattern 3) books.nodeLabelToIndex := by
  refine ⟨_, _, rfl, rfl, ?_⟩
  refine (doesOpTypePatternMatch_isMatch_iff
    (show doesOpTypePatternMatch _ true sumPattern 3 {} = .ok (some _) from rfl)).2 ?_
  intro visit visited fanins _ star variadic isFirst plain
  -- Only the sum has children with a star, and the first one is variadic.
  rcases List.mem_cons.1 visited with rfl | visited
  · cases isFirst
    exact absurd plain (by decide)
  rcases List.mem_cons.1 visited with rfl | visited
  · cases isFirst
  rcases List.mem_cons.1 visited with rfl | visited
  · cases isFirst
  rcases List.mem_cons.1 visited with rfl | visited
  · cases isFirst
  · cases visited

/-- Two inputs are taken for the first child, so the `Relu` is never compared to `Conv2D`. -/
theorem front_matches_nothing : ∃ view books, construct (sumGraph ["r", "r", "c"]) = .ok view ∧
    view.doesOpTypePatternMatch true frontPattern 3 {} = .ok (some books) ∧
    ¬ ∃ tree, view.IsMatch frontPattern 3 tree books.nodeLabelToIndex := by
  refine ⟨_, _, rfl, rfl, ?_⟩
  intro found
  obtain ⟨tree, ofPattern, ofNode, embedded, _⟩ := found
  cases embedded with
  | node pattern nodeIndex children op isOp accepted leaf inner each =>
    cases ofPattern
    cases ofNode
    obtain ⟨fanins, arranged⟩ := inner (List.cons_ne_nil _ _)
    have nodes : children.map NodeViewMatch.nodeIndex = [2, 2, 0] := (Option.some.inj fanins).symm
    have isLength : children.length = 3 := by
      rw [← List.length_map (f := NodeViewMatch.nodeIndex), nodes]
      rfl
    rw [isLength] at arranged
    have second : ∃ child ∈ children, child.nodeIndex = 2 ∧ child.pattern.op = "Conv2D*" := by
      match children, isLength with
      | [first, child, third], _ =>
        refine ⟨child, by simp, (List.cons.inj (List.cons.inj nodes).2).1, ?_⟩
        rcases arranged with inOrder | ⟨commutative, _⟩
        · exact congrArg OpTypePattern.op (List.cons.inj (List.cons.inj inOrder).2).1
        · exact absurd commutative (by decide)
    obtain ⟨child, member, isRelu, isConv⟩ := second
    cases each child member with
    | node pattern nodeIndex children op isOp accepted leaf inner each =>
      cases isRelu
      cases isOp
      rw [show pattern.op = "Conv2D*" from isConv] at accepted
      exact absurd accepted (by decide)

end MutableGraphView

end Itex.GraphUtils
