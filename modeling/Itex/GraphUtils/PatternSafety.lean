import Itex.GraphUtils.Construction
import Itex.GraphUtils.Pattern

/-!
Contract: what a match of a pattern guarantees about the nodes it wants removed.

Owns: the walk of a pattern over a graph, and when removing the nodes of a match leaves
no reader behind.
-/

namespace Itex.GraphUtils

open Itex.Graph (GraphDef)
open Itex.Lib

variable {faninChecking : Bool} {nodesToPreserve : List String} {pattern : OpTypePattern} {visits : List Visit}
  {books books' : Bookkeeping}

/-! ## Visits -/

/-- A pattern node on a node of the graph. -/
abbrev Visit := OpTypePattern × Nat

/-- The visits that bind a new label, given the labels bound before. -/
def introductions : List String → List Visit → List Visit
  | _, [] => []
  | labels, (pattern, nodeIndex) :: rest =>
    let label := resolveLabel labels pattern.label
    if label ∈ labels then introductions labels rest
    else (pattern, nodeIndex) :: introductions (label :: labels) rest

def recordAll (books : Bookkeeping) (visits : List Visit) : Option Bookkeeping :=
  visits.foldlM (fun books visit => books.record visit.1 visit.2) books

theorem record_cases {nodeIndex : Nat} (recorded : books.record pattern nodeIndex = some books') :
    (resolveLabel books.nodeLabelToIndex.keys pattern.label ∈ books.nodeLabelToIndex.keys ∧ books' = books) ∨
    (resolveLabel books.nodeLabelToIndex.keys pattern.label ∉ books.nodeLabelToIndex.keys ∧ books' =
        { nodeLabelToIndex := books.nodeLabelToIndex.insert
            (resolveLabel books.nodeLabelToIndex.keys pattern.label) nodeIndex
          matchedNodeIndices := books.matchedNodeIndices.insert nodeIndex
          removeNodeIndices :=
            if pattern.nodeStatus = .kRemove then books.removeNodeIndices.insert nodeIndex
            else books.removeNodeIndices }) := by
  unfold Bookkeeping.record at recorded
  dsimp only at recorded
  split at recorded
  next isNew =>
    right
    cases recorded
    exact ⟨AList.lookup_eq_none.1 isNew, rfl⟩
  next bound isBound =>
    left
    split at recorded
    next =>
      cases recorded
      exact ⟨AList.lookup_isSome.1 (by rw [isBound]; rfl), rfl⟩
    next => cases recorded

theorem recordAll_spec (recorded : recordAll books visits = some books') :
    (∀ node, node ∈ books'.matchedNodeIndices ↔ node ∈ books.matchedNodeIndices ∨
      ∃ pattern, (pattern, node) ∈ introductions books.nodeLabelToIndex.keys visits) ∧
    ∀ node, node ∈ books'.removeNodeIndices ↔ node ∈ books.removeNodeIndices ∨
      ∃ pattern, (pattern, node) ∈ introductions books.nodeLabelToIndex.keys visits ∧
        pattern.nodeStatus = .kRemove := by
  induction visits generalizing books with
  | nil =>
    cases recorded
    simp [introductions]
  | cons visit rest ih =>
    obtain ⟨pattern, nodeIndex⟩ := visit
    unfold recordAll at recorded
    rw [List.foldlM_cons] at recorded
    obtain ⟨next, stepped, recorded⟩ := Option.bind_eq_some_iff.1 recorded
    obtain ⟨matched, removed⟩ := ih recorded
    unfold introductions
    dsimp only
    rcases record_cases stepped with ⟨known, rfl⟩ | ⟨isNew, rfl⟩
    · rw [if_pos known]
      exact ⟨matched, removed⟩
    · rw [if_neg isNew]
      dsimp only at matched removed
      rw [AList.keys_insert, List.erase_of_not_mem isNew] at matched removed
      constructor
      · grind
      · grind

theorem introductions_subset {labels : List String} {visit : Visit}
    (introduced : visit ∈ introductions labels visits) : visit ∈ visits := by
  induction visits generalizing labels with
  | nil => cases introduced
  | cons head tail ih =>
    unfold introductions at introduced
    grind

/-! ## The walk -/

/-- What holds of a pattern if it holds of its children holds of every pattern. -/
theorem OpTypePattern.induction {holds : OpTypePattern → Prop} (node : ∀ op label nodeStatus children,
      (∀ child ∈ children, holds child) → holds ⟨op, label, nodeStatus, children⟩) (pattern : OpTypePattern) :
    holds pattern := by
  refine @OpTypePattern.rec holds (fun children => ∀ child ∈ children, holds child) node (fun _ mem => by cases mem) ?_
    pattern
  intro first rest ofFirst ofRest child mem
  rcases List.mem_cons.1 mem with isFirst | later
  · rw [isFirst]
    exact ofFirst
  · exact ofRest child later

namespace MutableGraphView

variable (view : MutableGraphView)

def noVisits (_ : Nat) : List Visit := []

mutual

/-- A pattern laid over the graph from a node, along the inputs. -/
def walk : OpTypePattern → Nat → List Visit
  | ⟨op, label, nodeStatus, children⟩ => fun nodeIndex =>
    (⟨op, label, nodeStatus, children⟩, nodeIndex) ::
      match view.nodes[nodeIndex]? with
      | none => []
      | some node =>
        match view.alignChildren op (children.map OpTypePattern.op)
          (node.regularFanins.map RegularFanin.nodeIndex) with
        | .ok (some pairs) =>
          pairs.flatMap fun pair => (childWalks children).getD pair.1 noVisits pair.2
        | _ => []

def childWalks : List OpTypePattern → List (Nat → List Visit)
  | [] => []
  | child :: children => walk child :: childWalks children

end

theorem childWalks_eq_map (children : List OpTypePattern) : view.childWalks children = children.map view.walk := by
  induction children with
  | nil => rfl
  | cons child children ih =>
    rw [childWalks, ih, List.map_cons]

theorem childMatchers_eq_map (faninChecking : Bool) (children : List OpTypePattern) :
    view.childMatchers faninChecking children = children.map (view.doesOpTypePatternMatch faninChecking) := by
  induction children with
  | nil => rfl
  | cons child children ih =>
    rw [childMatchers, ih, List.map_cons]

/-- A match of `pattern` is its walk, recorded visit by visit, over nodes without
controlled fanouts. -/
def Follows (faninChecking : Bool) (pattern : OpTypePattern) : Prop :=
  ∀ (nodeIndex : Nat) (books books' : Bookkeeping),
    view.doesOpTypePatternMatch faninChecking pattern nodeIndex books = .ok (some books') →
    recordAll books (view.walk pattern nodeIndex) = some books' ∧
      ∀ visit ∈ view.walk pattern nodeIndex, view.field (·.controlledFanouts) visit.2 = some []

theorem matchChildren_follows {children : List OpTypePattern}
    (each : ∀ child ∈ children, view.Follows faninChecking child) {pairs : List (Nat × Nat)}
    (matched : matchChildren (view.childMatchers faninChecking children) pairs books =
      .ok (some books')) : recordAll books (pairs.flatMap fun pair =>
      (view.childWalks children).getD pair.1 noVisits pair.2) = some books' ∧ ∀ visit ∈ pairs.flatMap fun pair =>
        (view.childWalks children).getD pair.1 noVisits pair.2, view.field (·.controlledFanouts) visit.2 = some [] := by
  induction pairs generalizing books with
  | nil =>
    cases matched
    exact ⟨rfl, fun visit mem => by cases mem⟩
  | cons pair rest ih =>
    obtain ⟨position, fanin⟩ := pair
    unfold matchChildren at matched
    obtain ⟨matcher, atPosition, matched⟩ := bind_ok.1 matched
    obtain ⟨result, childMatched, matched⟩ := bind_ok.1 matched
    rw [fetch_eq_ok, childMatchers_eq_map, List.getElem?_map] at atPosition
    obtain ⟨child, atChild, rfl⟩ := Option.map_eq_some_iff.1 atPosition
    cases result with
    | none => cases matched
    | some next =>
      obtain ⟨recorded, uncontrolled⟩ := each child (List.mem_of_getElem? atChild) _ _ _ childMatched
      obtain ⟨restRecorded, restUncontrolled⟩ := ih matched
      rw [List.flatMap_cons]
      have isWalk : (view.childWalks children).getD position noVisits fanin = view.walk child fanin := by
        rw [childWalks_eq_map, List.getD_eq_getElem?_getD, List.getElem?_map, atChild]
        rfl
      dsimp only
      rw [isWalk]
      constructor
      · unfold recordAll at recorded ⊢
        rw [List.foldlM_append, recorded]
        exact restRecorded
      · intro visit mem
        rcases List.mem_append.1 mem with first | later
        · exact uncontrolled visit first
        · exact restUncontrolled visit later

variable {view} in
theorem doesOpTypePatternMatch_eq_some {op label : String} {nodeStatus : NodeStatus} {children : List OpTypePattern}
    {nodeIndex : Nat} (matched : view.doesOpTypePatternMatch faninChecking ⟨op, label, nodeStatus, children⟩ nodeIndex books =
      .ok (some books')) : ∃ node nodeOp next, view.nodes[nodeIndex]? = some node ∧ view.opOf nodeIndex = .ok nodeOp ∧
      acceptsNode faninChecking ⟨op, label, nodeStatus, children⟩ node nodeOp = true ∧
      books.record ⟨op, label, nodeStatus, children⟩ nodeIndex = some next ∧
      (children = [] ∧ books' = next ∨ children ≠ [] ∧ ∃ pairs,
        view.alignChildren op (children.map OpTypePattern.op) (node.regularFanins.map RegularFanin.nodeIndex) =
          .ok (some pairs) ∧ matchChildren (view.childMatchers faninChecking children) pairs next = .ok (some books')) := by
  unfold doesOpTypePatternMatch at matched
  obtain ⟨node, atNode, matched⟩ := bind_ok.1 matched
  obtain ⟨nodeOp, isOp, matched⟩ := bind_ok.1 matched
  rw [fetch_eq_ok] at atNode
  split at matched
  swap
  · cases matched
  next accepted =>
  cases recorded : books.record ⟨op, label, nodeStatus, children⟩ nodeIndex with
  | none =>
    rw [recorded] at matched
    cases matched
  | some next =>
    rw [recorded] at matched
    refine ⟨node, nodeOp, next, atNode, isOp, accepted, rfl, ?_⟩
    dsimp only at matched
    split at matched
    next isLeaf =>
      cases matched
      exact .inl ⟨List.isEmpty_iff.1 isLeaf, rfl⟩
    next isInner =>
      obtain ⟨aligned, alignedOk, matched⟩ := bind_ok.1 matched
      cases aligned with
      | none => cases matched
      | some pairs => exact .inr ⟨fun isLeaf => isInner (List.isEmpty_iff.2 isLeaf), pairs, alignedOk, matched⟩

theorem match_follows (faninChecking : Bool) (pattern : OpTypePattern) : view.Follows faninChecking pattern := by
  induction pattern using OpTypePattern.induction with
  | node op label nodeStatus children each =>
    intro nodeIndex books books' matched
    obtain ⟨node, nodeOp, next, atNode, -, accepted, recorded, below⟩ := doesOpTypePatternMatch_eq_some matched
    have uncontrolled : view.field (·.controlledFanouts) nodeIndex = some [] := by
      unfold acceptsNode at accepted
      rw [Bool.and_eq_true, Bool.and_eq_true] at accepted
      rw [field_of_getElem? atNode, List.isEmpty_iff.1 accepted.1.2]
    unfold walk
    rw [atNode]
    dsimp only
    have first : ∀ rest, recordAll books ((⟨op, label, nodeStatus, children⟩, nodeIndex) :: rest) =
        recordAll next rest := by
      intro rest
      unfold recordAll
      rw [List.foldlM_cons]
      show (books.record _ _).bind _ = _
      rw [recorded]
      rfl
    rw [first]
    rcases below with ⟨rfl, rfl⟩ | ⟨-, pairs, alignedOk, matched⟩
    · -- A pattern without children is paired with no input.
      have noPairs : ∀ pairs, view.alignChildren op [] (node.regularFanins.map
          RegularFanin.nodeIndex) = .ok (some pairs) → pairs.flatMap (fun pair =>
            (view.childWalks []).getD pair.1 noVisits pair.2) = ([] : List Visit) := by
        intro pairs _
        rw [List.flatMap_eq_nil_iff]
        intro pair _
        rfl
      constructor
      · split
        next pairs aligned =>
          rw [noPairs pairs aligned]
          rfl
        next => rfl
      · grind
    · rw [alignedOk]
      obtain ⟨restRecorded, restUncontrolled⟩ := view.matchChildren_follows each matched
      grind

/-! ## Safety of a match -/

/-- The nodes that a visit of status `kReplace` meets. -/
def replaced (pattern : OpTypePattern) (start : Nat) : List Nat :=
  ((view.walk pattern start).filter fun visit => visit.1.nodeStatus = .kReplace).map Prod.snd

/-- The nodes that a visit of status `kRemove` introduces. -/
def removals (pattern : OpTypePattern) (start : Nat) : List Nat :=
  ((introductions [] (view.walk pattern start)).filter fun visit =>
    visit.1.nodeStatus = .kRemove).map Prod.snd

/-- Removing `removed` and replacing `replaced` leaves no reader of a removed node. -/
structure SafeToFuse (nodesToPreserve : List String) (removed replaced : List Nat) : Prop where
  notPreserved : ∀ r ∈ removed, view.nameAt r ∉ nodesToPreserve
  noControl : ∀ r ∈ removed, ∀ c, ¬ view.ControlledBy c r
  readers : ∀ r ∈ removed, ∀ c, view.Reads c r → c ∈ removed ∨ c ∈ replaced

/-- No node that the pattern meets keeps reading a node to remove. -/
def RemainingReadNoRemoval (pattern : OpTypePattern) (start : Nat) : Prop :=
  ∀ visit ∈ view.walk pattern start, visit.1.nodeStatus = .kRemain →
    ∀ r ∈ view.removals pattern start, view.Reads visit.2 r →
      visit.2 ∈ view.removals pattern start ∨ visit.2 ∈ view.replaced pattern start

variable {view}

theorem isSafeNodesToRemove_spec {indices : List Nat}
    (safe : view.isSafeNodesToRemove nodesToPreserve books indices = .ok true) :
    ∀ r ∈ indices, view.nameAt r ∉ nodesToPreserve ∧ ∀ port j fanout, view.fanout r port j = some fanout →
        fanout.nodeIndex ∈ books.matchedNodeIndices := by
  induction indices with
  | nil => exact fun r mem => by cases mem
  | cons index rest ih =>
    unfold isSafeNodesToRemove at safe
    obtain ⟨node, atNode, safe⟩ := bind_ok.1 safe
    obtain ⟨stored, atStored, safe⟩ := bind_ok.1 safe
    rw [fetch_eq_ok] at atNode atStored
    split at safe
    next => cases safe
    next notPreserved =>
    split at safe
    swap
    · cases safe
    next inside =>
    intro r mem
    rcases List.mem_cons.1 mem with isFirst | later
    · rw [isFirst]
      constructor
      · rw [nameAt_of_nodeDef? (show view.nodeDef? index = some stored.nodeDef by
          simp [nodeDef?, atStored])]
        exact notPreserved
      · intro port j fanout atFanout
        rw [MutableGraphView.fanout, field_of_getElem? atNode, Option.bind_some] at atFanout
        obtain ⟨fanouts, atPort, atJ⟩ := Option.bind_eq_some_iff.1 atFanout
        have ofPort := List.all_eq_true.1 inside fanouts (List.mem_of_getElem? atPort)
        exact of_decide_eq_true (List.all_eq_true.1 ofPort fanout (List.mem_of_getElem? atJ))
    · exact ih safe r later

theorem getMatchedNodes_spec {start : Nat} {labels : AList fun _ : String => Nat} {removed : List Nat}
    (matched : view.getMatchedNodes faninChecking pattern nodesToPreserve start = .ok (some (labels, removed))) :
    (∀ r, r ∈ removed ↔ r ∈ view.removals pattern start) ∧
    (∀ r ∈ removed, view.field (·.controlledFanouts) r = some [] ∧ view.nameAt r ∉ nodesToPreserve ∧
      ∀ port j fanout, view.fanout r port j = some fanout →
        ∃ visit ∈ introductions [] (view.walk pattern start), visit.2 = fanout.nodeIndex) := by
  unfold getMatchedNodes at matched
  obtain ⟨result, patternMatched, matched⟩ := bind_ok.1 matched
  cases result with
  | none => cases matched
  | some books =>
    obtain ⟨safe, safeOk, matched⟩ := bind_ok.1 matched
    cases safe with
    | false => cases matched
    | true =>
      cases matched
      obtain ⟨recorded, uncontrolled⟩ := view.match_follows faninChecking pattern _ _ _ patternMatched
      obtain ⟨isMatched, isRemoved⟩ := recordAll_spec recorded
      have inWalk : ∀ r, r ∈ books.removeNodeIndices ↔ r ∈ view.removals pattern start := by
        intro r
        rw [isRemoved]
        unfold removals
        simp
      refine ⟨inWalk, ?_⟩
      intro r mem
      have isSafe := isSafeNodesToRemove_spec safeOk r mem
      obtain ⟨visit, visited, isR⟩ := List.mem_map.1 ((inWalk r).1 mem)
      have fromWalk : visit ∈ view.walk pattern start :=
        introductions_subset (List.mem_filter.1 visited).1
      refine ⟨isR ▸ uncontrolled visit fromWalk, isSafe.1, ?_⟩
      intro port j fanout atFanout
      have inMatched := (isMatched fanout.nodeIndex).1 (isSafe.2 port j fanout atFanout)
      rcases inMatched with before | ⟨other, found⟩
      · cases before
      · exact ⟨_, found, rfl⟩

/-- The nodes of a match are safe to remove exactly when no node that stays in the match
reads one of them. -/
theorem getMatchedNodes_safe_iff (inv : view.Inv) {faninChecking : Bool} {pattern : OpTypePattern}
    {nodesToPreserve : List String} {start : Nat} {labels : AList fun _ : String => Nat} {removed : List Nat}
    (matched : view.getMatchedNodes faninChecking pattern nodesToPreserve start = .ok (some (labels, removed))) :
    view.SafeToFuse nodesToPreserve removed (view.replaced pattern start) ↔
      view.RemainingReadNoRemoval pattern start := by
  obtain ⟨isRemoval, ofRemoved⟩ := getMatchedNodes_spec matched
  constructor
  · intro safe visit _ _ r removal reads
    rw [← isRemoval] at removal ⊢
    exact safe.readers r removal visit.2 reads
  · intro remaining
    refine
      { notPreserved := fun r member => (ofRemoved r member).2.1
        noControl := ?_
        readers := ?_ }
    · intro r member c controls
      obtain ⟨j, k, atFanout⟩ := inv.navigable.controlled_of_controlledBy controls
      rw [controlled, (ofRemoved r member).1] at atFanout
      cases atFanout
    · intro r member c reads
      obtain ⟨port, j, k, atFanout⟩ := inv.navigable.fanout_of_reads reads
      obtain ⟨⟨visitor, node⟩, introduced, isC⟩ := (ofRemoved r member).2.2 port j _ atFanout
      dsimp only at isC
      subst isC
      have visited := introductions_subset introduced
      rw [isRemoval] at member ⊢
      -- The reader was introduced with one of the three statuses.
      cases status : visitor.nodeStatus with
      | kRemain => exact remaining _ visited status r member reads
      | kRemove =>
        refine .inl (List.mem_map.2 ⟨_, List.mem_filter.2 ⟨introduced, ?_⟩, rfl⟩)
        exact decide_eq_true status
      | kReplace =>
        refine .inr (List.mem_map.2 ⟨_, List.mem_filter.2 ⟨visited, ?_⟩, rfl⟩)
        exact decide_eq_true status

/-- An addition of a biased value and a residual input, fused into the addition. -/
def residualPattern : OpTypePattern :=
  ⟨"AddV2", "add", .kReplace, [⟨"BiasAdd", "bias", .kRemove, [⟨"*", "input", .kRemain, []⟩]⟩,
      ⟨"*", "residual", .kRemain, []⟩]⟩

/-- The residual input is the input of the bias. -/
def residualGraph : GraphDef :=
  [⟨"x", "Placeholder", "", [], ∅⟩, ⟨"bias", "BiasAdd", "", [⟨"x", .port 0⟩], ∅⟩,
    ⟨"add", "AddV2", "", [⟨"bias", .port 0⟩, ⟨"x", .port 0⟩], ∅⟩]

/-- The residual input reads the bias. -/
def activatedGraph : GraphDef :=
  [⟨"x", "Placeholder", "", [], ∅⟩, ⟨"bias", "BiasAdd", "", [⟨"x", .port 0⟩], ∅⟩,
    ⟨"relu", "Relu", "", [⟨"bias", .port 0⟩], ∅⟩,
    ⟨"add", "AddV2", "", [⟨"bias", .port 0⟩, ⟨"relu", .port 0⟩], ∅⟩]

theorem residual_match_safe : ∃ view labels, construct residualGraph = .ok view ∧
    view.getMatchedNodes true residualPattern [] 2 = .ok (some (labels, [1])) ∧
    view.SafeToFuse [] [1] (view.replaced residualPattern 2) := by
  refine ⟨_, _, rfl, rfl, ?_⟩
  have built : construct residualGraph = .ok _ := rfl
  refine (getMatchedNodes_safe_iff (construct_inv built).1
    (show getMatchedNodes _ true residualPattern [] 2 = .ok (some (_, [1])) from rfl)).2 ?_
  intro visit visited remains r _ reads
  -- Only the placeholder stays, and it reads nothing.
  have isPlaceholder : visit.2 = 0 := by
    rcases List.mem_cons.1 visited with rfl | visited
    · cases remains
    rcases List.mem_cons.1 visited with rfl | visited
    · cases remains
    rcases List.mem_cons.1 visited with rfl | visited
    · rfl
    rcases List.mem_cons.1 visited with rfl | visited
    · rfl
    · cases visited
  rw [isPlaceholder] at reads
  obtain ⟨consumer, producer, port, atC, -, member⟩ := reads
  cases atC
  cases member

theorem activated_reader_left : ∃ view labels, construct activatedGraph = .ok view ∧
    view.getMatchedNodes true residualPattern [] 3 = .ok (some (labels, [1])) ∧
    view.Reads 2 1 ∧ ¬ view.SafeToFuse [] [1] (view.replaced residualPattern 3) := by
  refine ⟨_, _, rfl, rfl, ⟨_, _, 0, rfl, rfl, List.mem_cons_self⟩, ?_⟩
  intro safe
  have kept := safe.readers 1 List.mem_cons_self 2 ⟨_, _, 0, rfl, rfl, List.mem_cons_self⟩
  revert kept
  decide

end MutableGraphView

end Itex.GraphUtils
