import Itex.Graph.Types
import Itex.Lib.BreadthFirst
import Itex.Lib.Fallible
import Itex.Lib.PostOrder
import Itex.Lib.Rewiring

/-!
Contract: control edges between the stages of a device
(`tensorflow/passes/hs_to_tfg.cpp`,
`multiStageJoin` and what it calls).

Owns: the operations of a graph with their operands, the entry values of a stage, the edges
that join stages, and that these close no cycle.

A value of a graph is a result of one of its operations. Of the type of a result it is kept
whether it is a control edge. The order of the uses of a value is not observed.
-/

namespace Itex.XpuAutoShard.StageJoin

open Itex.Graph (Failure)
open Itex.Lib

variable {controlEdge v : Value} {i : Nat}

/-- A result of an operation. -/
structure Value where
  op : Nat
  result : Nat
deriving DecidableEq, Repr

structure Operation where
  name : String
  operands : List Value
  /-- Of each result, whether it is a control edge. -/
  isControl : List Bool
deriving DecidableEq, Repr

abbrev OpGraph := List Operation

def kCommunicationOP : List String := ["tfg.CCLAllReduce", "tfg.NcclAllReduce"]

namespace OpGraph

variable (graph : OpGraph)

def getDefiningOp (v : Value) : Except Failure Operation :=
  match graph[v.op]? with
  | some op => .ok op
  | none => .error (.crash "null operation")

/-- `getUsers`: an operation for each of its operands that is `v`. -/
def getUsers (v : Value) : List Nat :=
  graph.zipIdx.flatMap fun (op, i) => (op.operands.filter (· = v)).map fun _ => i

/-- `getResults` of the operation at a position. -/
def getResults (i : Nat) : List Value :=
  match graph[i]? with
  | some op => (List.range op.isControl.length).map fun k => ⟨i, k⟩
  | none => []

def isControlType (v : Value) : Bool :=
  match graph[v.op]? with
  | some op => op.isControl.getD v.result false
  | none => false

/-- No value is a crash as soon as it is used. -/
def getControlEdgeForValue (v : Value) : Except Failure Value :=
  match (graph.getResults v.op).find? fun result => graph.isControlType result with
  | some result => .ok result
  | none => .error (.crash "null value")

def dataOperands (op : Operation) : List Value := op.operands.filter fun operand => !graph.isControlType operand

/-- The second of two layers of splits that a shard operation was lowered to. -/
def isEntrySplit (op : Operation) : Except Failure Bool :=
  if op.name = "tfg.SplitV" then
    match op.operands with
    | [] => .ok false
    | first :: _ => do
      let preFirstOp ← graph.getDefiningOp first
      if preFirstOp.name = "tfg.SplitV" then
        match preFirstOp.operands with
        | [] => .error (.crash "no operand 0")
        | input :: _ =>
          return (graph.getUsers input).any fun user =>
            (graph[user]?.map Operation.name) == some "hs.shard_op"
      else return false
  else .ok false

def outOfTurns : Failure := .crash "out of turns"

/-- The loop of `find_entry_split_value`: it collects entry values and, if it is to stop at them,
the operands of communications. -/
def findLoop (communicationOpStop : Bool) : Nat → List Value → List Nat → List Value × List Value →
    Except Failure (List Value × List Value)
  | _, [], _, found => .ok found
  | 0, _ :: _, _, _ => .error outOfTurns
  | turns + 1, v :: valuesToVisit, visitedOps, (entryValues, communicationValues) =>
    if v.op ∈ visitedOps then
      findLoop communicationOpStop turns valuesToVisit visitedOps (entryValues, communicationValues)
    else do
      let op ← graph.getDefiningOp v
      let found ← graph.isEntrySplit op
      if op.name ∈ kCommunicationOP ∨ op.name = "tfg.ConcatV2" then
        findLoop communicationOpStop turns valuesToVisit (v.op :: visitedOps) (entryValues,
          if communicationOpStop then communicationValues ++ graph.dataOperands op else communicationValues)
      else if found then
        findLoop communicationOpStop turns valuesToVisit (v.op :: visitedOps)
          (entryValues ++ [v], communicationValues)
      else
        findLoop communicationOpStop turns (valuesToVisit ++ graph.dataOperands op) (v.op :: visitedOps)
          (entryValues, communicationValues)

/-- `find_entry_split_value`, with turns enough for all operands. -/
def findEntrySplitValue (values : List Value) (communicationOpStop : Bool) :
    Except Failure (List Value × List Value) :=
  graph.findLoop communicationOpStop (values.length + (graph.map fun op => op.operands.length).sum) values [] ([], [])

def findEntrySplitValues (v : Value) : Except Failure (List Value) := do
  let (allEntryValues, communicationValues) ← graph.findEntrySplitValue [v] true
  let (commEntryValues, _) ← graph.findEntrySplitValue communicationValues false
  return allEntryValues.filter fun value => value ∉ commEntryValues

def setControlEdgeForValue (v controlEdge : Value) : Except Failure OpGraph := do
  let defineOp ← graph.getDefiningOp v
  if defineOp.name = "tfg.SplitV" then
    return graph.map fun op =>
      if v ∈ op.operands ∧ controlEdge ∉ op.operands then { op with operands := op.operands ++ [controlEdge] } else op
  else return graph

/-- The users of the results of an operation. -/
def next (i : Nat) : List Nat := (graph.getResults i).flatMap graph.getUsers

def reachable (src dest : Value) : Except Failure Bool :=
  match BreadthFirst.search graph.next (fun op => decide (dest ∈ graph.getResults op)) graph.length
      (graph.getUsers src) with
  | some found => .ok found
  | none => .error outOfTurns

/-- An entry value that does not lead to the control edge waits for it. -/
def joinEntry (controlEdge entryValue : Value) : Except Failure OpGraph := do
  let leads ← graph.reachable entryValue controlEdge
  if leads then return graph else graph.setControlEdgeForValue entryValue controlEdge

end OpGraph

/-- `multiStageJoin`, of the values of consecutive stages. -/
def multiStageJoin (graph : OpGraph) : List Value → Except Failure OpGraph
  | value :: next :: rest => do
    let controlEdge ← graph.getControlEdgeForValue value
    let entryValues ← graph.findEntrySplitValues next
    let joined ← entryValues.foldlM (fun graph entryValue => OpGraph.joinEntry graph controlEdge entryValue) graph
    multiStageJoin joined (next :: rest)
  | _ => .ok graph

/-! ## Graphs -/

namespace OpGraph

variable {graph graph' : OpGraph}

/-- A result of the operation at `c` that the one at `p` gives, or the other way round: `c` reads `p`. -/
def Feeds (graph : OpGraph) (p c : Nat) : Prop :=
  ∃ op, graph[c]? = some op ∧ ∃ v ∈ op.operands, v.op = p

def IsValue (graph : OpGraph) (v : Value) : Prop := v ∈ graph.getResults v.op

/-- Operands are values of the graph, and splits have some. -/
structure WellFormed (graph : OpGraph) : Prop where
  operands : ∀ op ∈ graph, ∀ v ∈ op.operands, graph.IsValue v
  splits : ∀ op ∈ graph, op.name = "tfg.SplitV" → op.operands ≠ []

theorem mem_getResults :
    v ∈ graph.getResults i ↔ v.op = i ∧ ∃ op, graph[i]? = some op ∧ v.result < op.isControl.length := by
  unfold getResults
  cases graph[i]? with
  | none => simp
  | some op =>
    rw [List.mem_map]
    constructor
    · rintro ⟨k, inRange, rfl⟩
      exact ⟨rfl, op, rfl, List.mem_range.1 inRange⟩
    · rintro ⟨rfl, op', isOp, inside⟩
      cases isOp
      exact ⟨v.result, List.mem_range.2 inside, rfl⟩

theorem mem_getUsers : i ∈ graph.getUsers v ↔ ∃ op, graph[i]? = some op ∧ v ∈ op.operands := by
  unfold getUsers
  rw [List.mem_flatMap]
  constructor
  · grind
  · intro ⟨op, atI, isOperand⟩
    refine ⟨(op, i), List.mem_zipIdx_iff_getElem?.2 atI, List.mem_map.2 ⟨v, ?_, rfl⟩⟩
    exact List.mem_filter.2 ⟨isOperand, decide_eq_true rfl⟩

theorem IsValue.definingOp (isValue : graph.IsValue v) :
    ∃ op, graph[v.op]? = some op ∧ graph.getDefiningOp v = .ok op := by
  obtain ⟨-, op, atOp, -⟩ := mem_getResults.1 isValue
  refine ⟨op, atOp, ?_⟩
  unfold getDefiningOp
  rw [atOp]

namespace WellFormed

variable (wf : graph.WellFormed)

include wf

theorem mem_next {j : Nat} : j ∈ graph.next i ↔ graph.Feeds i j := by
  unfold next
  rw [List.mem_flatMap]
  constructor
  · intro ⟨v, isResult, isUser⟩
    obtain ⟨op, atJ, isOperand⟩ := mem_getUsers.1 isUser
    exact ⟨op, atJ, v, isOperand, (mem_getResults.1 isResult).1⟩
  · rintro ⟨op, atJ, v, isOperand, rfl⟩
    exact ⟨v, wf.operands op (List.mem_of_getElem? atJ) v isOperand, mem_getUsers.2 ⟨op, atJ, isOperand⟩⟩

theorem reachable_spec {src dest : Value} (isValue : graph.IsValue dest) :
    ∃ leads, graph.reachable src dest = .ok leads ∧
      (leads = true ↔ ∃ user ∈ graph.getUsers src, Relation.ReflTransGen graph.Feeds user dest.op) := by
  have edges : (fun a b => b ∈ graph.next a) = graph.Feeds := by
    funext a b
    exact propext wf.mem_next
  have inRange : ∀ {v : Value} {i : Nat}, i ∈ graph.getUsers v → i ∈ List.range graph.length := by
    intro v i isUser
    obtain ⟨op, atI, -⟩ := mem_getUsers.1 isUser
    exact List.mem_range.2 (read_lt atI)
  obtain ⟨found, isFound, iff_⟩ := @BreadthFirst.search_spec _ _ graph.next
    (fun op => decide (dest ∈ graph.getResults op)) (List.range graph.length)
    (fun i _ j isNext => by
      obtain ⟨v, -, isUser⟩ := List.mem_flatMap.1 isNext
      exact inRange isUser)
    (graph.getUsers src) fun root isUser => inRange isUser
  rw [List.length_range] at isFound
  refine ⟨found, ?_, ?_⟩
  · unfold reachable
    rw [isFound]
  · rw [iff_, edges]
    constructor
    · intro ⟨root, isUser, i, isGoal, path⟩
      rw [← (mem_getResults.1 (of_decide_eq_true isGoal)).1] at path
      exact ⟨root, isUser, path⟩
    · intro ⟨root, isUser, path⟩
      exact ⟨root, isUser, dest.op, decide_eq_true isValue, path⟩

end WellFormed

/-! ## Growth -/

/-- An operation of a graph with further operands, all of them control edges of the graph. -/
structure Waits (graph : OpGraph) (op op' : Operation) : Prop where
  name : op'.name = op.name
  isControl : op'.isControl = op.isControl
  operands : ∃ edges, op'.operands = op.operands ++ edges ∧
    ∀ edge ∈ edges, graph.IsValue edge ∧ graph.isControlType edge = true

/-- The operations wait for further control edges. -/
def Grown (graph graph' : OpGraph) : Prop := List.Forall₂ (Waits graph) graph graph'

theorem Waits.refl (graph : OpGraph) (op : Operation) : Waits graph op op :=
  ⟨rfl, rfl, [], (List.append_nil _).symm, fun _ mem => nomatch mem⟩

theorem Grown.refl (graph : OpGraph) : Grown graph graph :=
  List.forall₂_same.2 fun op _ => Waits.refl graph op

namespace Grown

variable (grown : Grown graph graph')

include grown

theorem at_ (i : Nat) : (graph[i]? = none ∧ graph'[i]? = none) ∨
    ∃ op op', graph[i]? = some op ∧ graph'[i]? = some op' ∧ Waits graph op op' := by
  by_cases inside : i < graph.length
  · have inside' : i < graph'.length := by rwa [← grown.length_eq]
    exact .inr ⟨_, _, List.getElem?_eq_getElem inside, List.getElem?_eq_getElem inside', grown.get inside inside'⟩
  · have outside' : ¬ i < graph'.length := by rwa [← grown.length_eq]
    exact .inl ⟨List.getElem?_eq_none (Nat.le_of_not_lt inside), List.getElem?_eq_none (Nat.le_of_not_lt outside')⟩

theorem getResults (i : Nat) : graph'.getResults i = graph.getResults i := by
  unfold OpGraph.getResults
  rcases grown.at_ i with ⟨none, none'⟩ | ⟨op, op', atI, atI', waits⟩
  · rw [none, none']
  · rw [atI, atI']
    dsimp only
    rw [waits.isControl]

theorem isControlType (v : Value) : graph'.isControlType v = graph.isControlType v := by
  unfold OpGraph.isControlType
  rcases grown.at_ v.op with ⟨none, none'⟩ | ⟨op, op', atI, atI', waits⟩
  · rw [none, none']
  · rw [atI, atI']
    dsimp only
    rw [waits.isControl]

theorem isValue (v : Value) : graph'.IsValue v ↔ graph.IsValue v := by
  unfold IsValue
  rw [grown.getResults]

theorem trans {graph'' : OpGraph} (grown' : Grown graph' graph'') : Grown graph graph'' := by
  unfold Grown
  rw [List.forall₂_iff_get]
  refine ⟨grown.length_eq.trans grown'.length_eq, ?_⟩
  intro i inside inside''
  have inside' : i < graph'.length := by rwa [← grown.length_eq]
  have first := grown.get inside inside'
  have second := grown'.get inside' inside''
  obtain ⟨edges, isOperands, areEdges⟩ := first.operands
  obtain ⟨edges', isOperands', areEdges'⟩ := second.operands
  refine ⟨second.name.trans first.name, second.isControl.trans first.isControl, edges ++ edges', ?_, ?_⟩
  · rw [isOperands', isOperands, List.append_assoc]
  · intro edge mem
    rcases List.mem_append.1 mem with mem | mem
    · exact areEdges edge mem
    · obtain ⟨isValue, isControl⟩ := areEdges' edge mem
      rw [grown.isValue] at isValue
      rw [grown.isControlType] at isControl
      exact ⟨isValue, isControl⟩

theorem wellFormed (wf : graph.WellFormed) : graph'.WellFormed := by
  have ofOp : ∀ op' ∈ graph', ∃ op ∈ graph, Waits graph op op' := fun op' mem =>
    exists_of_forall₂_of_mem_right grown mem
  constructor
  · intro op' mem v isOperand
    obtain ⟨op, inGraph, waits⟩ := ofOp op' mem
    obtain ⟨edges, isOperands, areEdges⟩ := waits.operands
    rw [isOperands] at isOperand
    rw [grown.isValue]
    rcases List.mem_append.1 isOperand with isOld | isEdge
    · exact wf.operands op inGraph v isOld
    · exact (areEdges v isEdge).1
  · intro op' mem isSplit noOperand
    obtain ⟨op, inGraph, waits⟩ := ofOp op' mem
    obtain ⟨edges, isOperands, -⟩ := waits.operands
    rw [isOperands] at noOperand
    rw [waits.name] at isSplit
    exact wf.splits op inGraph isSplit (List.append_eq_nil_iff.1 noOperand).1

end Grown

/-- The users of a value that do not wait for the edge yet. -/
def QualifiedOp (graph : OpGraph) (v controlEdge : Value) (i : Nat) : Prop :=
  ∃ op, graph[i]? = some op ∧ v ∈ op.operands ∧ controlEdge ∉ op.operands

/-- The qualified users, and no other operation, read the operation of the edge as well. -/
theorem setControlEdge_spec (isValue : graph.IsValue v) (isEdge : graph.IsValue controlEdge)
    (isControl : graph.isControlType controlEdge = true) :
    ∃ graph', graph.setControlEdgeForValue v controlEdge = .ok graph' ∧ Grown graph graph' ∧
      (graph' = graph ∨ Extends graph.Feeds controlEdge.op (graph.QualifiedOp v controlEdge) graph'.Feeds) := by
  obtain ⟨defineOp, -, defines⟩ := isValue.definingOp
  unfold setControlEdgeForValue
  rw [defines]
  by_cases isSplit : defineOp.name = "tfg.SplitV"
  · refine ⟨_, if_pos isSplit, ?_, .inr ?_⟩
    · unfold Grown
      rw [List.forall₂_map_right_iff, List.forall₂_same]
      intro op _
      split
      · refine ⟨rfl, rfl, [controlEdge], rfl, ?_⟩
        intro edge mem
        rw [List.mem_singleton.1 mem]
        exact ⟨isEdge, isControl⟩
      · exact Waits.refl graph op
    · intro p c
      unfold Feeds QualifiedOp
      rw [List.getElem?_map]
      cases graph[c]? with
      | none => simp
      | some op =>
        simp only [Option.map_some, Option.some.injEq, exists_eq_left']
        by_cases qualified : v ∈ op.operands ∧ controlEdge ∉ op.operands
        · grind
        · rw [if_neg qualified]
          simp only [qualified, and_false, or_false]
  · exact ⟨graph, if_neg isSplit, Grown.refl graph, .inl rfl⟩

/-- Only users that do not lead to the operation of the edge come to wait for it. -/
theorem joinEntry_spec {entryValue : Value} (wf : graph.WellFormed)
    (acyclic : Acyclic graph.Feeds) (isValue : graph.IsValue entryValue) (isEdge : graph.IsValue controlEdge)
    (isControl : graph.isControlType controlEdge = true) :
    ∃ graph', graph.joinEntry controlEdge entryValue = .ok graph' ∧ Grown graph graph' ∧ Acyclic graph'.Feeds := by
  obtain ⟨leads, isLeads, iff_⟩ := @WellFormed.reachable_spec graph wf entryValue controlEdge isEdge
  unfold joinEntry
  rw [isLeads]
  cases leads with
  | true => exact ⟨graph, rfl, Grown.refl graph, acyclic⟩
  | false =>
    obtain ⟨graph', isSet, grown, same | extends_⟩ := setControlEdge_spec isValue isEdge isControl
    · rw [same] at isSet
      exact ⟨graph, isSet, Grown.refl graph, acyclic⟩
    · refine ⟨graph', isSet, grown, (extends_.acyclic_iff acyclic).2 ?_⟩
      intro user ⟨op, atUser, reads, _⟩ path
      exact absurd (iff_.2 ⟨user, mem_getUsers.2 ⟨op, atUser, reads⟩, path⟩) Bool.false_ne_true

/-- The operands of the operations that are not visited. -/
def weight (graph : OpGraph) (visitedOps : List Nat) (i : Nat) : Nat :=
  if i ∈ visitedOps then 0 else ((graph[i]?.map fun op => op.operands.length).getD 0)

theorem weight_visit {visitedOps : List Nat} {op : Operation} (atI : graph[i]? = some op)
    (fresh : i ∉ visitedOps) :
    ((List.range graph.length).map (graph.weight (i :: visitedOps))).sum + op.operands.length ≤
      ((List.range graph.length).map (graph.weight visitedOps)).sum := by
  refine PostOrder.sum_map_add_le (List.mem_range.2 (read_lt atI)) ?_ ?_
  · intro k
    unfold weight
    by_cases seen : k ∈ visitedOps
    · rw [if_pos seen, if_pos (List.mem_cons_of_mem _ seen)]
    · rw [if_neg seen]
      split
      · exact Nat.zero_le _
      · exact Nat.le_refl _
  · unfold weight
    rw [if_pos List.mem_cons_self, if_neg fresh, atI, Nat.zero_add]
    exact Nat.le_refl _

theorem isEntrySplit_returns (wf : graph.WellFormed) {op : Operation} (inGraph : op ∈ graph) :
    ∃ found, graph.isEntrySplit op = .ok found := by
  unfold isEntrySplit
  split
  · cases isOperands : op.operands with
    | nil => exact ⟨false, rfl⟩
    | cons first rest =>
      have isOperand : first ∈ op.operands := by
        rw [isOperands]
        exact List.mem_cons_self
      obtain ⟨preFirstOp, atFirst, defines⟩ := (wf.operands op inGraph first isOperand).definingOp
      dsimp only
      rw [defines]
      by_cases isSplit : preFirstOp.name = "tfg.SplitV"
      · have someOperand := wf.splits preFirstOp (List.mem_of_getElem? atFirst) isSplit
        obtain ⟨input, others, isInput⟩ := List.exists_cons_of_ne_nil someOperand
        simp only [bind, Except.bind, isSplit, if_true, isInput]
        exact ⟨_, rfl⟩
      · exact ⟨false, if_neg isSplit⟩
  · exact ⟨false, rfl⟩

/-- What the search finds are values, as are those that it starts from. -/
theorem findLoop_returns (wf : graph.WellFormed) (communicationOpStop : Bool) {turns : Nat}
    {queue : List Value} {visitedOps : List Nat} {found : List Value × List Value}
    (queued : ∀ v ∈ queue, graph.IsValue v)
    (collected : (∀ v ∈ found.1, graph.IsValue v) ∧ ∀ v ∈ found.2, graph.IsValue v)
    (enough : queue.length + ((List.range graph.length).map (graph.weight visitedOps)).sum ≤ turns) :
    ∃ found', graph.findLoop communicationOpStop turns queue visitedOps found = .ok found' ∧
      (∀ v ∈ found'.1, graph.IsValue v) ∧ ∀ v ∈ found'.2, graph.IsValue v := by
  induction turns generalizing queue visitedOps found with
  | zero =>
    have isEmpty : queue = [] := List.eq_nil_of_length_eq_zero (by omega)
    rw [isEmpty]
    exact ⟨found, rfl, collected⟩
  | succ turns ih =>
    cases queue with
    | nil => exact ⟨found, rfl, collected⟩
    | cons v queue =>
      have others : ∀ w ∈ queue, graph.IsValue w := fun w mem => queued w (List.mem_cons_of_mem _ mem)
      have isValue := queued v List.mem_cons_self
      obtain ⟨entryValues, communicationValues⟩ := found
      rw [List.length_cons] at enough
      rw [findLoop]
      by_cases seen : v.op ∈ visitedOps
      · rw [if_pos seen]
        exact ih others collected (by omega)
      · rw [if_neg seen]
        obtain ⟨op, atOp, defines⟩ := isValue.definingOp
        have inGraph := List.mem_of_getElem? atOp
        have lighter := weight_visit atOp seen
        have dataValues : ∀ w ∈ graph.dataOperands op, graph.IsValue w := fun w mem =>
          wf.operands op inGraph w (List.mem_filter.1 mem).1
        have dataLength : (graph.dataOperands op).length ≤ op.operands.length := List.length_filter_le _ _
        obtain ⟨isEntry, tested⟩ := isEntrySplit_returns wf inGraph
        simp only [defines, tested, bind, Except.bind]
        split
        · refine ih others ⟨collected.1, ?_⟩ (by omega)
          grind
        · split
          · refine ih others ⟨?_, collected.2⟩ (by omega)
            intro w mem
            rcases List.mem_append.1 mem with isOld | isNew
            · exact collected.1 w isOld
            · rw [List.mem_singleton.1 isNew]
              exact isValue
          · refine ih ?_ collected (by rw [List.length_append]; omega)
            intro w mem
            rcases List.mem_append.1 mem with isOld | isNew
            · exact others w isOld
            · exact dataValues w isNew

theorem findEntrySplitValue_returns (wf : graph.WellFormed) (communicationOpStop : Bool)
    {values : List Value} (areValues : ∀ v ∈ values, graph.IsValue v) :
    ∃ found, graph.findEntrySplitValue values communicationOpStop = .ok found ∧
      (∀ v ∈ found.1, graph.IsValue v) ∧ ∀ v ∈ found.2, graph.IsValue v := by
  unfold findEntrySplitValue
  refine findLoop_returns wf communicationOpStop areValues ⟨fun _ => nofun, fun _ => nofun⟩ ?_
  have same : (List.range graph.length).map (graph.weight []) = graph.map fun op => op.operands.length := by
    apply List.ext_getElem
    · rw [List.length_map, List.length_range, List.length_map]
    · intro i inside _
      rw [List.length_map, List.length_range] at inside
      rw [List.getElem_map, List.getElem_map, List.getElem_range, weight, if_neg List.not_mem_nil,
        List.getElem?_eq_getElem inside]
      rfl
  rw [same]

theorem findEntrySplitValues_returns (wf : graph.WellFormed) (isValue : graph.IsValue v) :
    ∃ entryValues, graph.findEntrySplitValues v = .ok entryValues ∧ ∀ w ∈ entryValues, graph.IsValue w := by
  obtain ⟨⟨allEntryValues, communicationValues⟩, isAll, areEntries, areOperands⟩ :=
    findEntrySplitValue_returns wf true (List.forall_mem_singleton.2 isValue)
  obtain ⟨⟨commEntryValues, _⟩, isComm, -, -⟩ := findEntrySplitValue_returns wf false areOperands
  unfold findEntrySplitValues
  rw [isAll]
  dsimp only [bind, Except.bind]
  rw [isComm]
  exact ⟨_, rfl, fun w mem => areEntries w (List.mem_filter.1 mem).1⟩

end OpGraph

namespace OpGraph

/-- A value whose operation has a control edge among its results. -/
def Controllable (graph : OpGraph) (v : Value) : Prop :=
  graph.IsValue v ∧ ∃ edge ∈ graph.getResults v.op, graph.isControlType edge = true

variable {graph graph' : OpGraph}

theorem Grown.controllable (grown : Grown graph graph') (controllable : graph.Controllable v) :
    graph'.Controllable v := by
  obtain ⟨isValue, edge, isResult, isControl⟩ := controllable
  refine ⟨(grown.isValue v).2 isValue, edge, ?_, ?_⟩
  · rwa [grown.getResults]
  · rwa [grown.isControlType]

theorem getControlEdge_returns (controllable : graph.Controllable v) :
    ∃ edge, graph.getControlEdgeForValue v = .ok edge ∧ graph.IsValue edge ∧ graph.isControlType edge = true := by
  obtain ⟨-, edge, isResult, isControl⟩ := controllable
  unfold getControlEdgeForValue
  cases found : (graph.getResults v.op).find? fun result => graph.isControlType result with
  | none => exact absurd isControl (List.find?_eq_none.1 found edge isResult)
  | some first =>
    have isFirst := List.mem_of_find?_eq_some found
    refine ⟨first, rfl, ?_, List.find?_some found⟩
    unfold IsValue
    rwa [(mem_getResults.1 isFirst).1]

theorem joinEntries_spec {entryValues : List Value} (wf : graph.WellFormed)
    (acyclic : Acyclic graph.Feeds) (areValues : ∀ v ∈ entryValues, graph.IsValue v)
    (isEdge : graph.IsValue controlEdge) (isControl : graph.isControlType controlEdge = true) :
    ∃ graph', entryValues.foldlM (fun graph entryValue => joinEntry graph controlEdge entryValue) graph = .ok graph' ∧
      Grown graph graph' ∧ Acyclic graph'.Feeds := by
  induction entryValues generalizing graph with
  | nil => exact ⟨graph, rfl, Grown.refl graph, acyclic⟩
  | cons entryValue entryValues ih =>
    obtain ⟨joined, isJoined, grown, acyclic'⟩ :=
      joinEntry_spec wf acyclic (areValues _ List.mem_cons_self) isEdge isControl
    obtain ⟨graph', isResult, grown', acyclic''⟩ := ih (grown.wellFormed wf) acyclic'
      (fun v mem => (grown.isValue v).2 (areValues v (List.mem_cons_of_mem _ mem)))
      ((grown.isValue _).2 isEdge) ((grown.isControlType _).trans isControl)
    refine ⟨graph', ?_, grown.trans grown', acyclic''⟩
    rw [List.foldlM_cons, isJoined]
    exact isResult

theorem multiStageJoin_spec {values : List Value} (wf : graph.WellFormed) (acyclic : Acyclic graph.Feeds)
    (controllable : ∀ v ∈ values, graph.Controllable v) :
    ∃ graph', multiStageJoin graph values = .ok graph' ∧ Grown graph graph' ∧ Acyclic graph'.Feeds := by
  induction values generalizing graph with
  | nil => exact ⟨graph, rfl, Grown.refl graph, acyclic⟩
  | cons value values ih =>
    cases values with
    | nil => exact ⟨graph, rfl, Grown.refl graph, acyclic⟩
    | cons next rest =>
      obtain ⟨controlEdge, isControlEdge, isEdge, isControl⟩ :=
        getControlEdge_returns (controllable value List.mem_cons_self)
      obtain ⟨entryValues, areEntries, areValues⟩ :=
        findEntrySplitValues_returns wf (controllable next (by simp)).1
      obtain ⟨joined, isJoined, grown, acyclic'⟩ :=
        joinEntries_spec wf acyclic areValues isEdge isControl
      obtain ⟨graph', isResult, grown', acyclic''⟩ := ih (grown.wellFormed wf) acyclic'
        fun v mem => grown.controllable (controllable v (List.mem_cons_of_mem _ mem))
      refine ⟨graph', ?_, grown.trans grown', acyclic''⟩
      rw [multiStageJoin, isControlEdge]
      dsimp only [bind, Except.bind]
      rw [areEntries]
      dsimp only
      rw [isJoined]
      exact isResult

end OpGraph

/-- Every sequence of calls returns, adds nothing but control operands, and closes no cycle. -/
theorem multiStageJoins_acyclic {graph : OpGraph} (wellFormed : graph.WellFormed) (acyclic : Acyclic graph.Feeds)
    {ranges : List (List Value)} (controllable : ∀ values ∈ ranges, ∀ v ∈ values, graph.Controllable v) :
    ∃ graph', ranges.foldlM multiStageJoin graph = .ok graph' ∧ graph.Grown graph' ∧ Acyclic graph'.Feeds := by
  induction ranges generalizing graph with
  | nil => exact ⟨graph, rfl, OpGraph.Grown.refl graph, acyclic⟩
  | cons values ranges ih =>
    obtain ⟨joined, isJoined, grown, acyclic'⟩ :=
      OpGraph.multiStageJoin_spec wellFormed acyclic (controllable values List.mem_cons_self)
    obtain ⟨graph', isResult, grown', acyclic''⟩ := ih (grown.wellFormed wellFormed) acyclic'
      fun values member v isMember => grown.controllable (controllable values (List.mem_cons_of_mem _ member) v isMember)
    refine ⟨graph', ?_, grown.trans grown', acyclic''⟩
    rw [List.foldlM_cons, isJoined]
    exact isResult

theorem acyclic_of_listed {graph : OpGraph}
    (listed : (graph.zipIdx.all fun (op, i) => op.operands.all fun v => decide (v.op < i)) = true) :
    Acyclic graph.Feeds := by
  apply Acyclic.of_rank id
  rintro p c ⟨op, atC, v, isOperand, rfl⟩
  have ofOp := List.all_eq_true.1 listed (op, c) (List.mem_zipIdx_iff_getElem?.2 atC)
  exact of_decide_eq_true (List.all_eq_true.1 ofOp v isOperand)

/-- Two stages of a sharded value. -/
def twoStages : OpGraph :=
  [⟨"tfg.Placeholder", [], [false, true]⟩, ⟨"hs.shard_op", [⟨0, 0⟩], [false]⟩,
    ⟨"tfg.SplitV", [⟨0, 0⟩], [false, false, true]⟩, ⟨"tfg.SplitV", [⟨2, 0⟩], [false, false, true]⟩,
    ⟨"tfg.Relu", [⟨3, 0⟩], [false, true]⟩, ⟨"tfg.Relu", [⟨3, 1⟩], [false, true]⟩]

/-- The second stage comes to wait for the first, and then not the other way round. -/
theorem twoStages_joined : ∃ graph', [[⟨4, 0⟩, ⟨5, 0⟩], [⟨5, 0⟩, ⟨4, 0⟩]].foldlM multiStageJoin twoStages = .ok graph' ∧
      graph'.map Operation.operands = [[], [⟨0, 0⟩], [⟨0, 0⟩], [⟨2, 0⟩], [⟨3, 0⟩], [⟨3, 1⟩, ⟨4, 1⟩]] ∧
      twoStages.Grown graph' ∧ Acyclic graph'.Feeds := by
  have wellFormed : twoStages.WellFormed := by
    constructor
    · unfold OpGraph.IsValue
      decide
    · decide
  obtain ⟨graph', isJoined, grown, acyclic⟩ := @multiStageJoins_acyclic twoStages wellFormed
    (acyclic_of_listed (by decide)) [[⟨4, 0⟩, ⟨5, 0⟩], [⟨5, 0⟩, ⟨4, 0⟩]] (by
      unfold OpGraph.Controllable OpGraph.IsValue
      decide)
  have computed : ([[⟨4, 0⟩, ⟨5, 0⟩], [⟨5, 0⟩, ⟨4, 0⟩]].foldlM multiStageJoin twoStages).toOption.map
      (·.map Operation.operands) = some [[], [⟨0, 0⟩], [⟨0, 0⟩], [⟨2, 0⟩], [⟨3, 0⟩], [⟨3, 1⟩, ⟨4, 1⟩]] := by
    decide +kernel
  rw [isJoined] at computed
  exact ⟨graph', isJoined, Option.some.inj computed, grown, acyclic⟩

end Itex.XpuAutoShard.StageJoin
