import Itex.GraphUtils.View
import Itex.Lib.Vectors

/-!
Contract: the representation invariant of `utils::MutableGraphView`.

Owns: the edges of a view as seen from both ends, the invariant, and how adding an edge
changes the edges.
-/

namespace Itex.GraphUtils

open Itex.Graph (PortId TensorId NodeDef)
open Itex.Lib

namespace MutableGraphView

variable {c r : Nat} {def_ : NodeDef} {node' : MutableNodeView} {β : Type}

/-! ## Edges, from both ends -/

def nodeDef? (view : MutableGraphView) (i : Nat) : Option NodeDef :=
  (view.graph[i]?).map StoredNode.nodeDef

def nameAt (view : MutableGraphView) (i : Nat) : String :=
  ((view.nodeDef? i).map NodeDef.name).getD ""

def field {β : Type} (view : MutableGraphView) (read : MutableNodeView → β) (i : Nat) : Option β :=
  (view.nodes[i]?).map read

def fanin (view : MutableGraphView) (i k : Nat) : Option RegularFanin :=
  (view.field (·.regularFanins) i).bind fun fanins => fanins[k]?

def control (view : MutableGraphView) (i k : Nat) : Option ControllingFanin :=
  (view.field (·.controllingFanins) i).bind fun fanins => fanins[k]?

/-- Fanout `j` of output `port` of node `p`. -/
def fanout (view : MutableGraphView) (p port j : Nat) : Option Fanout :=
  (view.field (·.regularFanoutsByPort) p).bind fun fanoutsByPort =>
    (fanoutsByPort[port]?).bind fun fanouts => fanouts[j]?

def controlled (view : MutableGraphView) (p j : Nat) : Option Fanout :=
  (view.field (·.controlledFanouts) p).bind fun fanouts => fanouts[j]?

def faninKey (view : MutableGraphView) (p : Nat) (port : PortId) : Option NodeDefAndPortIndex :=
  (view.graph[p]?).map fun stored => ⟨stored.address, port⟩

/-- How often `key` is among the fanins of a node. A fanin without a fanout, whose
producer lost its name in a mutation, does not count. -/
def faninCount (view : MutableGraphView) (node : MutableNodeView) (key : NodeDefAndPortIndex) : Nat :=
  (node.regularFanins.countP fun fanin =>
      fanin.fanoutIndex.isSome ∧ view.faninKey fanin.nodeIndex (.port fanin.index) = some key) +
    node.controllingFanins.countP fun fanin =>
      fanin.fanoutIndex.isSome ∧ view.faninKey fanin.nodeIndex .controlSlot = some key

def inputsOf (view : MutableGraphView) (node : MutableNodeView) : List TensorId :=
  (node.regularFanins.map fun fanin => ⟨view.nameAt fanin.nodeIndex, .port fanin.index⟩) ++
    node.controllingFanins.map fun fanin => ⟨view.nameAt fanin.nodeIndex, .controlSlot⟩

/-! ## The invariant -/

/-- Each end of an edge points at the other. -/
structure Linked (view : MutableGraphView) : Prop where
  fanin : ∀ {i k j : Nat} {fanin : RegularFanin}, view.fanin i k = some fanin →
    fanin.fanoutIndex = some j → view.fanout fanin.nodeIndex fanin.index j = some ⟨i, k⟩
  fanout : ∀ {p port j : Nat} {fanout : Fanout}, view.fanout p port j = some fanout →
    view.fanin fanout.nodeIndex fanout.faninIndex = some ⟨p, port, some j⟩
  control : ∀ {i k j : Nat} {fanin : ControllingFanin}, view.control i k = some fanin →
    fanin.fanoutIndex = some j → view.controlled fanin.nodeIndex j = some ⟨i, k⟩
  controlled : ∀ {p j : Nat} {fanout : Fanout}, view.controlled p j = some fanout →
    view.control fanout.nodeIndex fanout.faninIndex = some ⟨p, some j⟩

/-- Every fanin has its fanout. -/
structure Attached (view : MutableGraphView) : Prop where
  fanin : ∀ {i k : Nat} {fanin : RegularFanin}, view.fanin i k = some fanin → fanin.fanoutIndex.isSome = true
  control : ∀ {i k : Nat} {fanin : ControllingFanin}, view.control i k = some fanin → fanin.fanoutIndex.isSome = true

/-- The summaries a node view keeps of its edges. -/
structure Summarized (view : MutableGraphView) (node : MutableNodeView) : Prop where
  numRegularFanouts : node.numRegularFanouts = (node.regularFanoutsByPort.map List.length).sum
  trimmed : node.regularFanoutsByPort.getLast? ≠ some []
  faninsCount : ∀ key, (node.faninsCount.lookup key).getD 0 = view.faninCount node key
  counted : ∀ key, node.faninsCount.lookup key ≠ some 0
  controls : ∀ name k, node.controllingFaninsIndex.lookup name = some k ↔
    ∃ fanin, node.controllingFanins[k]? = some fanin ∧ fanin.fanoutIndex.isSome = true ∧
      view.nameAt fanin.nodeIndex = name

structure Indexed (view : MutableGraphView) : Prop where
  length : view.nodes.length = view.graph.length
  nodeIndex : ∀ {i : Nat} {node : MutableNodeView}, view.nodes[i]? = some node → node.nodeIndex = i
  names : ∀ name i, view.nodeIndexByName.lookup name = some i ↔ ∃ def_, view.nodeDef? i = some def_ ∧ def_.name = name
  addresses : (view.graph.map StoredNode.address).Nodup
  fresh : ∀ stored ∈ view.graph, stored.address < view.nextAddress

structure Inv (view : MutableGraphView) : Prop where
  indexed : view.Indexed
  linked : view.Linked
  attached : view.Attached
  summarized : ∀ node ∈ view.nodes, view.Summarized node
  inputs : ∀ {i : Nat} {node : MutableNodeView} {def_ : NodeDef}, view.nodes[i]? = some node →
    view.nodeDef? i = some def_ → def_.input = view.inputsOf node
  noSelfLoop : ∀ {i : Nat} {def_ : NodeDef}, view.nodeDef? i = some def_ →
    ∀ fanin ∈ def_.input, fanin.node ≠ def_.name

/-- The part of the invariant that the edges need; the summaries are left out. -/
structure Navigable (view : MutableGraphView) : Prop where
  indexed : view.Indexed
  linked : view.Linked
  attached : view.Attached
  inputs : ∀ {i : Nat} {node : MutableNodeView} {def_ : NodeDef}, view.nodes[i]? = some node →
    view.nodeDef? i = some def_ → def_.input = view.inputsOf node

theorem Inv.navigable {view : MutableGraphView} (inv : view.Inv) : view.Navigable :=
  ⟨inv.indexed, inv.linked, inv.attached, inv.inputs⟩

section ModifyNode

variable (view : MutableGraphView) (n : Nat) (change : MutableNodeView → MutableNodeView)

@[simp] theorem graph_modifyNode : (view.modifyNode n change).graph = view.graph := rfl

@[simp] theorem length_modifyNode : (view.modifyNode n change).nodes.length = view.nodes.length :=
  List.length_modify ..

theorem field_modifyNode {read : MutableNodeView → β} (write : β → β)
    (acts : ∀ node, read (change node) = write (read node)) (i : Nat) : (view.modifyNode n change).field read i =
      if i = n then (view.field read i).map write else view.field read i := by
  unfold field modifyNode
  grind

theorem field_modifyNode_same {read : MutableNodeView → β} (same : ∀ node, read (change node) = read node) :
    (view.modifyNode n change).field read = view.field read := by
  funext i
  rw [field_modifyNode view n change id same]
  simp

end ModifyNode

theorem fetch_eq_ok {α : Type} {vector : List α} {index : Nat} {element : α} :
    fetch vector index = .ok element ↔ vector[index]? = some element := by
  unfold fetch
  split
  next found => rw [found]; simp
  next missing => rw [missing]; simp

theorem lookup_incrementFaninCount (faninsCount : FaninsCount) (fanin key : NodeDefAndPortIndex) :
    (incrementFaninCount faninsCount fanin).lookup key =
      if key = fanin then some ((faninsCount.lookup fanin).getD 0 + 1) else faninsCount.lookup key := by
  unfold incrementFaninCount
  by_cases same : key = fanin
  · rw [if_pos same, same, AList.lookup_insert]
  · rw [if_neg same, AList.lookup_insert_ne same]

theorem counted_added {counts counts' : FaninsCount} {key : NodeDefAndPortIndex} {here : Prop} [Decidable here]
    (isCount : some counts' = if here then some (incrementFaninCount counts key) else some counts)
    (counted : ∀ wanted, counts.lookup wanted ≠ some 0) (wanted : NodeDefAndPortIndex) :
    counts'.lookup wanted ≠ some 0 := by
  split at isCount
  · rw [Option.some.inj isCount, lookup_incrementFaninCount]
    split
    · simp
    · exact counted wanted
  · rw [Option.some.inj isCount]
    exact counted wanted

section Ports

variable (fanoutsByPort : List (List Fanout)) (port : Nat)

theorem getElem?_resizePorts (q : Nat) : (resizePorts fanoutsByPort port)[q]? =
    if q < fanoutsByPort.length then fanoutsByPort[q]? else if q ≤ port then some [] else none := by
  unfold resizePorts
  by_cases inside : q < fanoutsByPort.length
  · rw [if_pos inside, List.getElem?_append_left inside]
  · grind

theorem getElem?_resizePorts_port : (resizePorts fanoutsByPort port)[port]? = some (fanoutsByPort.getD port []) := by
  rw [getElem?_resizePorts]
  grind

theorem getElem?_append_port (fanout : Fanout) (q j : Nat) :
    (((resizePorts fanoutsByPort port).modify port (· ++ [fanout]))[q]?).bind (fun l => l[j]?) =
      if q = port ∧ j = (fanoutsByPort.getD port []).length then some fanout
      else (fanoutsByPort[q]?).bind fun l => l[j]? := by
  rw [getElem?_modify_ite]
  by_cases same : q = port
  · subst same
    rw [if_pos rfl, getElem?_resizePorts_port]
    grind
  · rw [if_neg same, if_neg fun both => same both.1, getElem?_resizePorts]
    by_cases inside : q < fanoutsByPort.length
    · rw [if_pos inside]
    · rw [if_neg inside, List.getElem?_eq_none (Nat.not_lt.1 inside)]
      split <;> simp

theorem sum_append_port (fanout : Fanout) :
    ((((resizePorts fanoutsByPort port).modify port (· ++ [fanout])).map List.length).sum) =
      (fanoutsByPort.map List.length).sum + 1 := by
  have bound : port < (resizePorts fanoutsByPort port).length := by
    simp only [resizePorts, List.length_append, List.length_replicate]
    omega
  have sameSum : ((resizePorts fanoutsByPort port).map List.length).sum = (fanoutsByPort.map List.length).sum := by
    simp [resizePorts]
  rw [← sameSum]
  generalize resizePorts fanoutsByPort port = ports at bound
  clear sameSum
  induction ports generalizing port with
  | nil => cases bound
  | cons head tail ih =>
    grind

theorem trimmed_append_port (fanout : Fanout) (trimmed : fanoutsByPort.getLast? ≠ some []) :
    ((resizePorts fanoutsByPort port).modify port (· ++ [fanout])).getLast? ≠ some [] := by
  rw [List.getLast?_eq_getElem?] at trimmed ⊢
  rw [List.length_modify, getElem?_modify_ite]
  by_cases isLast : (resizePorts fanoutsByPort port).length - 1 = port
  · rw [if_pos isLast]
    cases (resizePorts fanoutsByPort port)[(resizePorts fanoutsByPort port).length - 1]? <;> simp
  · rw [if_neg isLast]
    have noneAdded : resizePorts fanoutsByPort port = fanoutsByPort := by
      unfold resizePorts at isLast ⊢
      rw [List.length_append, List.length_replicate] at isLast
      rw [show port + 1 - fanoutsByPort.length = 0 by omega]
      simp
    rw [noneAdded]
    exact trimmed

end Ports

/-- What stays when only edges change. -/
structure SameNodes (view view' : MutableGraphView) : Prop where
  graph : view'.graph = view.graph
  nodeIndexByName : view'.nodeIndexByName = view.nodeIndexByName
  nextAddress : view'.nextAddress = view.nextAddress
  length : view'.nodes.length = view.nodes.length
  nodeIndex : view'.field (·.nodeIndex) = view.field (·.nodeIndex)
  updateIndex : view'.field (·.updateIndex) = view.field (·.updateIndex)

theorem SameNodes.trans {view view' view'' : MutableGraphView} (first : SameNodes view view')
    (second : SameNodes view' view'') : SameNodes view view'' where
  graph := second.graph.trans first.graph
  nodeIndexByName := second.nodeIndexByName.trans first.nodeIndexByName
  nextAddress := second.nextAddress.trans first.nextAddress
  length := second.length.trans first.length
  nodeIndex := second.nodeIndex.trans first.nodeIndex
  updateIndex := second.updateIndex.trans first.updateIndex

/-- A regular edge was added: every field of every node view. -/
structure RegularAdded (view : MutableGraphView) (i p port : Nat) (view' : MutableGraphView) :
    Prop extends SameNodes view view' where
  defined : ∃ fanins fanoutsByPort stored, view.field (·.regularFanins) i = some fanins ∧
    view.field (·.regularFanoutsByPort) p = some fanoutsByPort ∧ view.graph[p]? = some stored ∧
    (∀ i', view'.field (·.regularFanins) i' =
      if i' = i then some (fanins ++ [⟨p, port, some (fanoutsByPort.getD port []).length⟩])
      else view.field (·.regularFanins) i') ∧
    (∀ p', view'.field (·.regularFanoutsByPort) p' = if p' = p then some ((resizePorts fanoutsByPort port).modify port
        (· ++ [⟨i, fanins.length⟩]))
      else view.field (·.regularFanoutsByPort) p') ∧
    (∀ i', view'.field (·.faninsCount) i' = if i' = i then (view.field (·.faninsCount) i').map fun faninsCount =>
        incrementFaninCount faninsCount ⟨stored.address, .port port⟩
      else view.field (·.faninsCount) i')
  numRegularFanouts : ∀ p', view'.field (·.numRegularFanouts) p' =
    if p' = p then (view.field (·.numRegularFanouts) p').map (· + 1)
    else view.field (·.numRegularFanouts) p'
  controllingFanins : view'.field (·.controllingFanins) = view.field (·.controllingFanins)
  controlledFanouts : view'.field (·.controlledFanouts) = view.field (·.controlledFanouts)
  controllingFaninsIndex : view'.field (·.controllingFaninsIndex) = view.field (·.controllingFaninsIndex)

theorem linkRegularFanin_added {view view' : MutableGraphView} {i p port : Nat}
    (added : view.linkRegularFanin i p port = .ok view') : RegularAdded view i p port view' := by
  unfold linkRegularFanin at added
  obtain ⟨node, atNode, added⟩ := bind_ok.1 added
  obtain ⟨faninNode, atFanin, added⟩ := bind_ok.1 added
  obtain ⟨stored, atStored, added⟩ := bind_ok.1 added
  rw [fetch_eq_ok] at atNode atFanin atStored
  cases added
  have faninsAt : view.field (·.regularFanins) i = some node.regularFanins := by
    simp [field, atNode]
  have fanoutsAt : view.field (·.regularFanoutsByPort) p = some faninNode.regularFanoutsByPort := by
    simp [field, atFanin]
  have sameCount : (resizePorts faninNode.regularFanoutsByPort port).getD port [] =
      faninNode.regularFanoutsByPort.getD port [] := by
    rw [List.getD_eq_getElem?_getD, getElem?_resizePorts_port, Option.getD_some]
  refine
    { graph := rfl
      nodeIndexByName := rfl
      nextAddress := rfl
      length := by simp
      nodeIndex := ?_
      updateIndex := ?_
      defined := ⟨_, _, stored, faninsAt, fanoutsAt, atStored, ?_, ?_, ?_⟩
      numRegularFanouts := ?_
      controllingFanins := ?_
      controlledFanouts := ?_
      controllingFaninsIndex := ?_ }
  · rw [field_modifyNode_same, field_modifyNode_same] <;> exact fun _ => rfl
  · rw [field_modifyNode_same, field_modifyNode_same] <;> exact fun _ => rfl
  · intro i'
    rw [field_modifyNode _ _ _ (· ++ [_]) (by exact fun _ => rfl),
      field_modifyNode_same _ _ _ (by exact fun _ => rfl), sameCount]
    by_cases same : i' = i
    · rw [if_pos same, if_pos same, same, faninsAt]
      rfl
    · rw [if_neg same, if_neg same]
  · intro p'
    rw [field_modifyNode_same _ _ _ (by exact fun _ => rfl),
      field_modifyNode _ _ _ (fun _ => (resizePorts faninNode.regularFanoutsByPort port).modify port
        (· ++ [⟨i, node.regularFanins.length⟩])) (by exact fun _ => rfl)]
    by_cases same : p' = p
    · rw [if_pos same, if_pos same, same, fanoutsAt]
      rfl
    · rw [if_neg same, if_neg same]
  · intro i'
    rw [field_modifyNode _ _ _ (fun counts => incrementFaninCount counts _) (by exact fun _ => rfl),
      field_modifyNode_same _ _ _ (by exact fun _ => rfl)]
  · intro p'
    rw [field_modifyNode_same _ _ _ (by exact fun _ => rfl), field_modifyNode _ _ _ (· + 1) (by exact fun _ => rfl)]
  · rw [field_modifyNode_same, field_modifyNode_same] <;> exact fun _ => rfl
  · rw [field_modifyNode_same, field_modifyNode_same] <;> exact fun _ => rfl
  · rw [field_modifyNode_same, field_modifyNode_same] <;> exact fun _ => rfl

structure ControlAdded (view : MutableGraphView) (i p : Nat) (name : String)
    (view' : MutableGraphView) : Prop extends SameNodes view view' where
  defined : ∃ fanins fanouts stored, view.field (·.controllingFanins) i = some fanins ∧
    view.field (·.controlledFanouts) p = some fanouts ∧ view.graph[p]? = some stored ∧
    (∀ i', view'.field (·.controllingFanins) i' = if i' = i then some (fanins ++ [⟨p, some fanouts.length⟩])
      else view.field (·.controllingFanins) i') ∧
    (∀ p', view'.field (·.controlledFanouts) p' = if p' = p then some (fanouts ++ [⟨i, fanins.length⟩])
      else view.field (·.controlledFanouts) p') ∧
    (∀ i', view'.field (·.faninsCount) i' = if i' = i then (view.field (·.faninsCount) i').map fun faninsCount =>
        incrementFaninCount faninsCount ⟨stored.address, .controlSlot⟩
      else view.field (·.faninsCount) i') ∧
    (∀ i', view'.field (·.controllingFaninsIndex) i' =
      if i' = i then (view.field (·.controllingFaninsIndex) i').map fun index =>
        if name ∈ index then index else index.insert name fanins.length
      else view.field (·.controllingFaninsIndex) i')
  numRegularFanouts : view'.field (·.numRegularFanouts) = view.field (·.numRegularFanouts)
  regularFanins : view'.field (·.regularFanins) = view.field (·.regularFanins)
  regularFanoutsByPort : view'.field (·.regularFanoutsByPort) = view.field (·.regularFanoutsByPort)

theorem linkControllingFanin_added {view view' : MutableGraphView} {i p : Nat} {name : String}
    (added : view.linkControllingFanin i p name = .ok view') : ControlAdded view i p name view' := by
  unfold linkControllingFanin at added
  obtain ⟨node, atNode, added⟩ := bind_ok.1 added
  obtain ⟨faninNode, atFanin, added⟩ := bind_ok.1 added
  obtain ⟨stored, atStored, added⟩ := bind_ok.1 added
  rw [fetch_eq_ok] at atNode atFanin atStored
  cases added
  have faninsAt : view.field (·.controllingFanins) i = some node.controllingFanins := by
    simp [field, atNode]
  have fanoutsAt : view.field (·.controlledFanouts) p = some faninNode.controlledFanouts := by
    simp [field, atFanin]
  refine
    { graph := rfl
      nodeIndexByName := rfl
      nextAddress := rfl
      length := by simp
      nodeIndex := ?_
      updateIndex := ?_
      defined := ⟨_, _, stored, faninsAt, fanoutsAt, atStored, ?_, ?_, ?_, ?_⟩
      numRegularFanouts := ?_
      regularFanins := ?_
      regularFanoutsByPort := ?_ }
  · rw [field_modifyNode_same, field_modifyNode_same] <;> exact fun _ => rfl
  · rw [field_modifyNode_same, field_modifyNode_same] <;> exact fun _ => rfl
  · intro i'
    rw [field_modifyNode _ _ _ (· ++ [_]) (by exact fun _ => rfl),
      field_modifyNode_same _ _ _ (by exact fun _ => rfl)]
    by_cases same : i' = i
    · rw [if_pos same, if_pos same, same, faninsAt]
      rfl
    · rw [if_neg same, if_neg same]
  · intro p'
    rw [field_modifyNode_same _ _ _ (by exact fun _ => rfl), field_modifyNode _ _ _ (· ++ [_]) (by exact fun _ => rfl)]
    by_cases same : p' = p
    · rw [if_pos same, if_pos same, same, fanoutsAt]
      rfl
    · rw [if_neg same, if_neg same]
  · intro i'
    rw [field_modifyNode _ _ _ (fun counts => incrementFaninCount counts _) (by exact fun _ => rfl),
      field_modifyNode_same _ _ _ (by exact fun _ => rfl)]
  · intro i'
    rw [field_modifyNode _ _ _ (fun index => if name ∈ index then index
        else index.insert name node.controllingFanins.length) (by exact fun _ => rfl),
      field_modifyNode_same _ _ _ (by exact fun _ => rfl)]
  · rw [field_modifyNode_same, field_modifyNode_same] <;> exact fun _ => rfl
  · rw [field_modifyNode_same, field_modifyNode_same] <;> exact fun _ => rfl
  · rw [field_modifyNode_same, field_modifyNode_same] <;> exact fun _ => rfl

section Added

variable {view view' : MutableGraphView}

theorem SameNodes.nameAt (same : SameNodes view view') (i : Nat) : view'.nameAt i = view.nameAt i := by
  unfold MutableGraphView.nameAt nodeDef?
  rw [same.graph]

theorem SameNodes.faninKey (same : SameNodes view view') (i : Nat) (port : PortId) :
    view'.faninKey i port = view.faninKey i port := by
  unfold MutableGraphView.faninKey
  rw [same.graph]

theorem SameNodes.indexed (same : SameNodes view view') (indexed : view.Indexed) : view'.Indexed where
  length := by rw [same.length, same.graph, indexed.length]
  nodeIndex := by
    intro i node atNode
    have isIndex : view'.field (·.nodeIndex) i = some node.nodeIndex := by
      simp [field, atNode]
    rw [same.nodeIndex] at isIndex
    obtain ⟨old, atOld, isSame⟩ := Option.map_eq_some_iff.1 isIndex
    rw [← isSame]
    exact indexed.nodeIndex atOld
  names := by
    intro name i
    rw [same.nodeIndexByName, indexed.names]
    unfold nodeDef?
    rw [same.graph]
  addresses := by
    rw [same.graph]
    exact indexed.addresses
  fresh := by
    rw [same.graph, same.nextAddress]
    exact indexed.fresh

theorem field_of_getElem? {n : Nat} {node : MutableNodeView}
    (atNode : view.nodes[n]? = some node) (read : MutableNodeView → β) : view.field read n = some (read node) := by
  simp [field, atNode]

theorem fanin_of_getElem? {n k : Nat} {node : MutableNodeView} {fanin : RegularFanin}
    (atNode : view.nodes[n]? = some node) (atK : node.regularFanins[k]? = some fanin) :
    view.fanin n k = some fanin := by
  rw [MutableGraphView.fanin, field_of_getElem? atNode]
  exact atK

section

variable {i p port : Nat} (added : RegularAdded view i p port view')

include added

theorem RegularAdded.fanin :
    ∃ position fanoutIndex, view.fanin i position = none ∧ view.fanout p port fanoutIndex = none ∧
      (∀ i' k, view'.fanin i' k = if i' = i ∧ k = position then
        some ⟨p, port, some fanoutIndex⟩ else view.fanin i' k) ∧
      ∀ p' q j, view'.fanout p' q j = if p' = p ∧ q = port ∧ j = fanoutIndex then
        some ⟨i, position⟩ else view.fanout p' q j := by
  obtain ⟨fanins, fanoutsByPort, stored, faninsAt, fanoutsAt, -, newFanins, newFanouts, -⟩ :=
    added.defined
  have oldFanin : ∀ k, view.fanin i k = fanins[k]? := by
    intro k
    simp [MutableGraphView.fanin, faninsAt]
  have oldFanout : ∀ q j, view.fanout p q j = (fanoutsByPort[q]?).bind fun l => l[j]? := by
    intro q j
    simp [fanout, fanoutsAt]
  refine ⟨fanins.length, (fanoutsByPort.getD port []).length, ?_, ?_, ?_, ?_⟩
  · rw [oldFanin, List.getElem?_eq_none (Nat.le_refl _)]
  · rw [oldFanout, List.getD_eq_getElem?_getD]
    cases fanoutsByPort[port]? <;> simp
  · intro i' k
    by_cases same : i' = i
    · subst same
      rw [oldFanin]
      unfold MutableGraphView.fanin
      rw [newFanins, if_pos rfl, Option.bind_some, getElem?_concat_ite]
      simp
    · unfold MutableGraphView.fanin
      rw [newFanins, if_neg same, if_neg fun both => same both.1]
  · intro p' q j
    by_cases same : p' = p
    · subst same
      rw [oldFanout]
      unfold fanout
      rw [newFanouts, if_pos rfl, Option.bind_some, getElem?_append_port]
      simp
    · unfold fanout
      rw [newFanouts, if_neg same, if_neg fun all => same all.1]

theorem RegularAdded.linked (linked : view.Linked) : view'.Linked := by
  obtain ⟨position, fanoutIndex, noFanin, noFanout, newFanin, newFanout⟩ := added.fanin
  have sameControl : view'.control = view.control := by
    unfold MutableGraphView.control
    rw [added.controllingFanins]
  have sameControlled : view'.controlled = view.controlled := by
    unfold MutableGraphView.controlled
    rw [added.controlledFanouts]
  constructor
  · intro i' k j fanin atFanin atFanout
    rw [newFanin] at atFanin
    rw [newFanout]
    split at atFanin
    next isNew =>
      cases atFanin
      cases atFanout
      rw [if_pos ⟨rfl, rfl, rfl⟩, isNew.1, isNew.2]
    next =>
      have old := linked.fanin atFanin atFanout
      rw [if_neg, old]
      rintro ⟨isP, isPort, isIndex⟩
      rw [isP, isPort, isIndex, noFanout] at old
      cases old
  · intro p' q j fanout atFanout
    rw [newFanout] at atFanout
    rw [newFanin]
    split at atFanout
    next isNew =>
      cases atFanout
      rw [if_pos ⟨rfl, rfl⟩, isNew.1, isNew.2.1, isNew.2.2]
    next =>
      have old := linked.fanout atFanout
      rw [if_neg, old]
      rintro ⟨isI, isPosition⟩
      rw [isI, isPosition, noFanin] at old
      cases old
  · rw [sameControl, sameControlled]
    exact linked.control
  · rw [sameControl, sameControlled]
    exact linked.controlled

theorem RegularAdded.attached (attached : view.Attached) : view'.Attached := by
  obtain ⟨position, fanoutIndex, -, -, newFanin, -⟩ := added.fanin
  constructor
  · intro i' k fanin atFanin
    rw [newFanin] at atFanin
    split at atFanin
    · cases atFanin
      rfl
    · exact attached.fanin atFanin
  · have sameControl : view'.control = view.control := by
      unfold MutableGraphView.control
      rw [added.controllingFanins]
    intro i' k fanin atControl
    rw [sameControl] at atControl
    exact attached.control atControl

end

theorem SameNodes.old (same : SameNodes view view') (mem : node' ∈ view'.nodes) :
    ∃ (n : Nat) (node : MutableNodeView), view'.nodes[n]? = some node' ∧
      view.nodes[n]? = some node ∧ node ∈ view.nodes := by
  obtain ⟨n, bound, atNode⟩ := List.mem_iff_getElem.1 mem
  have oldBound : n < view.nodes.length := by
    rw [← same.length]
    exact bound
  exact ⟨n, view.nodes.get ⟨n, oldBound⟩, List.getElem?_eq_some_iff.2 ⟨bound, atNode⟩,
    List.getElem?_eq_getElem oldBound, List.getElem_mem oldBound⟩

theorem field_congr {read : MutableNodeView → β} {n : Nat}
    {node : MutableNodeView} (atNode : view.nodes[n]? = some node)
    (atNode' : view'.nodes[n]? = some node') (same : view'.field read n = view.field read n) :
    read node' = read node := by
  rw [field_of_getElem? atNode, field_of_getElem? atNode'] at same
  exact Option.some.inj same

theorem RegularAdded.summarized {i p port : Nat} (added : RegularAdded view i p port view')
    (summarized : ∀ node ∈ view.nodes, view.Summarized node) : ∀ node ∈ view'.nodes, view'.Summarized node := by
  intro node' mem
  obtain ⟨n, node, atNode', atNode, oldMember⟩ := added.toSameNodes.old mem
  have old := summarized node oldMember
  obtain ⟨fanins, fanoutsByPort, stored, faninsAt, fanoutsAt, atStored, newFanins, newFanouts,
    newCount⟩ := added.defined
  have sameControls := field_congr atNode atNode' (congrFun added.controllingFanins n)
  have sameIndex := field_congr atNode atNode' (congrFun added.controllingFaninsIndex n)
  have isFanins := newFanins n
  have isFanouts := newFanouts n
  have isCount := newCount n
  have isNum := added.numRegularFanouts n
  simp only [field_of_getElem? atNode, field_of_getElem? atNode', Option.map_some]
    at isFanins isFanouts isCount isNum
  have key : view.faninKey p (.port port) = some ⟨stored.address, .port port⟩ := by
    simp [MutableGraphView.faninKey, atStored]
  have ownFanins : n = i → fanins = node.regularFanins := by
    rintro rfl
    rw [field_of_getElem? atNode] at faninsAt
    exact (Option.some.inj faninsAt).symm
  have ownFanouts : n = p → fanoutsByPort = node.regularFanoutsByPort := by
    rintro rfl
    rw [field_of_getElem? atNode] at fanoutsAt
    exact (Option.some.inj fanoutsAt).symm
  constructor
  · by_cases same : n = p
    · rw [if_pos same] at isFanouts isNum
      rw [Option.some.inj isFanouts, Option.some.inj isNum, sum_append_port, ownFanouts same, old.numRegularFanouts]
      push_cast
      rfl
    · rw [if_neg same] at isFanouts isNum
      rw [Option.some.inj isFanouts, Option.some.inj isNum]
      exact old.numRegularFanouts
  · by_cases same : n = p
    · rw [if_pos same] at isFanouts
      rw [Option.some.inj isFanouts, ownFanouts same]
      exact trimmed_append_port _ _ _ old.trimmed
    · rw [if_neg same] at isFanouts
      rw [Option.some.inj isFanouts]
      exact old.trimmed
  · intro wanted
    unfold faninCount
    simp only [added.toSameNodes.faninKey, sameControls]
    by_cases same : n = i
    · rw [if_pos same] at isFanins isCount
      rw [Option.some.inj isFanins, Option.some.inj isCount, ownFanins same, List.countP_append,
        lookup_incrementFaninCount, List.countP_singleton]
      have count := old.faninsCount wanted
      unfold faninCount at count
      grind
    · rw [if_neg same] at isFanins isCount
      rw [Option.some.inj isFanins, Option.some.inj isCount]
      exact old.faninsCount wanted
  · exact counted_added isCount old.counted
  · intro name k
    rw [sameIndex, sameControls, old.controls]
    simp only [added.toSameNodes.nameAt]

section

variable {i p : Nat} {name : String} (added : ControlAdded view i p name view')

include added

theorem ControlAdded.control :
    ∃ position fanoutIndex, view.control i position = none ∧ view.controlled p fanoutIndex = none ∧
      (∀ i' k, view'.control i' k = if i' = i ∧ k = position then
        some ⟨p, some fanoutIndex⟩ else view.control i' k) ∧
      ∀ p' j, view'.controlled p' j = if p' = p ∧ j = fanoutIndex then
        some ⟨i, position⟩ else view.controlled p' j := by
  obtain ⟨fanins, fanouts, stored, faninsAt, fanoutsAt, -, newFanins, newFanouts, -⟩ :=
    added.defined
  have oldFanin : ∀ k, view.control i k = fanins[k]? := by
    intro k
    simp [MutableGraphView.control, faninsAt]
  have oldFanout : ∀ j, view.controlled p j = fanouts[j]? := by
    intro j
    simp [controlled, fanoutsAt]
  refine ⟨fanins.length, fanouts.length, ?_, ?_, ?_, ?_⟩
  · rw [oldFanin, List.getElem?_eq_none (Nat.le_refl _)]
  · rw [oldFanout, List.getElem?_eq_none (Nat.le_refl _)]
  · intro i' k
    by_cases same : i' = i
    · subst same
      rw [oldFanin]
      unfold MutableGraphView.control
      rw [newFanins, if_pos rfl, Option.bind_some, getElem?_concat_ite]
      simp
    · unfold MutableGraphView.control
      rw [newFanins, if_neg same, if_neg fun both => same both.1]
  · intro p' j
    by_cases same : p' = p
    · subst same
      rw [oldFanout]
      unfold controlled
      rw [newFanouts, if_pos rfl, Option.bind_some, getElem?_concat_ite]
      simp
    · unfold controlled
      rw [newFanouts, if_neg same, if_neg fun both => same both.1]

theorem ControlAdded.sameRegular : view'.fanin = view.fanin ∧ view'.fanout = view.fanout := by
  constructor
  · unfold MutableGraphView.fanin
    rw [added.regularFanins]
  · unfold fanout
    rw [added.regularFanoutsByPort]

theorem ControlAdded.linked (linked : view.Linked) : view'.Linked := by
  obtain ⟨position, fanoutIndex, noFanin, noFanout, newFanin, newFanout⟩ := added.control
  obtain ⟨sameFanin, sameFanout⟩ := added.sameRegular
  constructor
  · rw [sameFanin, sameFanout]
    exact linked.fanin
  · rw [sameFanin, sameFanout]
    exact linked.fanout
  · intro i' k j fanin atFanin atFanout
    rw [newFanin] at atFanin
    rw [newFanout]
    split at atFanin
    next isNew =>
      cases atFanin
      cases atFanout
      rw [if_pos ⟨rfl, rfl⟩, isNew.1, isNew.2]
    next =>
      have old := linked.control atFanin atFanout
      rw [if_neg, old]
      rintro ⟨isP, isIndex⟩
      rw [isP, isIndex, noFanout] at old
      cases old
  · intro p' j fanout atFanout
    rw [newFanout] at atFanout
    rw [newFanin]
    split at atFanout
    next isNew =>
      cases atFanout
      rw [if_pos ⟨rfl, rfl⟩, isNew.1, isNew.2]
    next =>
      have old := linked.controlled atFanout
      rw [if_neg, old]
      rintro ⟨isI, isPosition⟩
      rw [isI, isPosition, noFanin] at old
      cases old

theorem ControlAdded.attached (attached : view.Attached) : view'.Attached := by
  obtain ⟨position, fanoutIndex, -, -, newFanin, -⟩ := added.control
  constructor
  · intro i' k fanin atFanin
    rw [added.sameRegular.1] at atFanin
    exact attached.fanin atFanin
  · intro i' k fanin atFanin
    rw [newFanin] at atFanin
    split at atFanin
    · cases atFanin
      rfl
    · exact attached.control atFanin

theorem ControlAdded.summarized (isName : view.nameAt p = name)
    (unused : ∀ k fanin, view.control i k = some fanin → view.nameAt fanin.nodeIndex ≠ name)
    (summarized : ∀ node ∈ view.nodes, view.Summarized node) : ∀ node ∈ view'.nodes, view'.Summarized node := by
  intro node' mem
  obtain ⟨n, node, atNode', atNode, oldMember⟩ := added.toSameNodes.old mem
  have old := summarized node oldMember
  obtain ⟨fanins, fanouts, stored, faninsAt, -, atStored, newFanins, -, newCount, newIndex⟩ :=
    added.defined
  have sameFanins := field_congr atNode atNode' (congrFun added.regularFanins n)
  have sameFanouts := field_congr atNode atNode' (congrFun added.regularFanoutsByPort n)
  have sameNum := field_congr atNode atNode' (congrFun added.numRegularFanouts n)
  have isFanins := newFanins n
  have isCount := newCount n
  have isIndex := newIndex n
  simp only [field_of_getElem? atNode, field_of_getElem? atNode', Option.map_some]
    at isFanins isCount isIndex
  have key : view.faninKey p .controlSlot = some ⟨stored.address, .controlSlot⟩ := by
    simp [MutableGraphView.faninKey, atStored]
  have ownFanins : n = i → fanins = node.controllingFanins := by
    rintro rfl
    rw [field_of_getElem? atNode] at faninsAt
    exact (Option.some.inj faninsAt).symm
  constructor
  · rw [sameNum, sameFanouts]
    exact old.numRegularFanouts
  · rw [sameFanouts]
    exact old.trimmed
  · intro wanted
    unfold faninCount
    simp only [added.toSameNodes.faninKey, sameFanins]
    by_cases same : n = i
    · rw [if_pos same] at isFanins isCount
      rw [Option.some.inj isFanins, Option.some.inj isCount, ownFanins same, List.countP_append,
        lookup_incrementFaninCount, List.countP_singleton]
      have count := old.faninsCount wanted
      unfold faninCount at count
      grind
    · rw [if_neg same] at isFanins isCount
      rw [Option.some.inj isFanins, Option.some.inj isCount]
      exact old.faninsCount wanted
  · exact counted_added isCount old.counted
  · intro wanted k
    simp only [added.toSameNodes.nameAt]
    by_cases same : n = i
    · have ownControl : ∀ k, view.control i k = node.controllingFanins[k]? := by
        intro k
        simp [MutableGraphView.control, faninsAt, ownFanins same]
      have notListed : name ∉ node.controllingFaninsIndex := by
        intro listed
        obtain ⟨k, atName⟩ := Option.isSome_iff_exists.1 (AList.lookup_isSome.2 listed)
        obtain ⟨fanin, atK, -, sameName⟩ := (old.controls name k).1 atName
        exact unused k fanin (by rw [ownControl, atK]) sameName
      rw [if_pos same] at isFanins isIndex
      rw [Option.some.inj isFanins, Option.some.inj isIndex, if_neg notListed, ownFanins same]
      by_cases isWanted : wanted = name
      · rw [isWanted, AList.lookup_insert]
        constructor
        · intro atEnd
          cases atEnd
          exact ⟨_, List.getElem?_concat_length, rfl, isName⟩
        · grind
      · rw [AList.lookup_insert_ne isWanted, old.controls]
        simp only [getElem?_concat_ite]
        constructor
        · grind
        · grind
    · rw [if_neg same] at isFanins isIndex
      rw [Option.some.inj isFanins, Option.some.inj isIndex]
      exact old.controls wanted k

end

end Added

/-! ## Readers -/

/-- Node `c` has a regular input from node `r`. -/
def Reads (view : MutableGraphView) (c r : Nat) : Prop :=
  ∃ consumer producer port, view.nodeDef? c = some consumer ∧ view.nodeDef? r = some producer ∧
    (⟨producer.name, .port port⟩ : TensorId) ∈ consumer.input

/-- Node `c` has a controlling input from node `r`. -/
def ControlledBy (view : MutableGraphView) (c r : Nat) : Prop :=
  ∃ consumer producer, view.nodeDef? c = some consumer ∧ view.nodeDef? r = some producer ∧
    (⟨producer.name, .controlSlot⟩ : TensorId) ∈ consumer.input

section Readers

variable {view : MutableGraphView}

theorem nameAt_of_nodeDef? {i : Nat} (atI : view.nodeDef? i = some def_) :
    view.nameAt i = def_.name := by
  simp [nameAt, atI]

theorem Indexed.eq_of_name (indexed : view.Indexed) {i j : Nat} {first second : NodeDef}
    (atI : view.nodeDef? i = some first) (atJ : view.nodeDef? j = some second)
    (sameName : first.name = second.name) : i = j := by
  have byFirst := (indexed.names second.name i).2 ⟨first, atI, sameName⟩
  have bySecond := (indexed.names second.name j).2 ⟨second, atJ, rfl⟩
  rw [byFirst] at bySecond
  exact Option.some.inj bySecond

theorem Indexed.nodeDef? (indexed : view.Indexed) {i : Nat} (bound : i < view.nodes.length) :
    ∃ def_, view.nodeDef? i = some def_ := by
  rw [indexed.length] at bound
  exact ⟨_, by rw [MutableGraphView.nodeDef?, List.getElem?_eq_getElem bound]; rfl⟩

theorem Indexed.eq_of_nameAt (indexed : view.Indexed) {i : Nat} {producer : NodeDef} (inside : i < view.nodes.length)
    (atR : view.nodeDef? r = some producer) (sameName : view.nameAt i = producer.name) : i = r := by
  obtain ⟨def_, atDef⟩ := indexed.nodeDef? inside
  rw [nameAt_of_nodeDef? atDef] at sameName
  exact indexed.eq_of_name atDef atR sameName

theorem Indexed.node (indexed : view.Indexed) {i : Nat}
    (atI : view.nodeDef? i = some def_) : ∃ node, view.nodes[i]? = some node := by
  obtain ⟨stored, atStored, -⟩ := Option.map_eq_some_iff.1 atI
  have bound := read_lt atStored
  rw [← indexed.length] at bound
  exact ⟨_, List.getElem?_eq_getElem bound⟩

theorem field_isSome {read : MutableNodeView → β} {i : Nat} {value : β}
    (isValue : view.field read i = some value) : i < view.nodes.length := by
  obtain ⟨node, atNode, -⟩ := Option.map_eq_some_iff.1 isValue
  exact read_lt atNode

/-- The regular readers of a node are its regular fanouts. -/
theorem Navigable.fanout_of_reads (inv : view.Navigable) (reads : view.Reads c r) :
    ∃ port j k, view.fanout r port j = some ⟨c, k⟩ := by
  obtain ⟨consumer, producer, port, atC, atR, mem⟩ := reads
  obtain ⟨node, atNode⟩ := inv.indexed.node atC
  rw [inv.inputs atNode atC] at mem
  rcases List.mem_append.1 mem with regular | controlling
  · obtain ⟨fanin, listed, isInput⟩ := List.mem_map.1 regular
    obtain ⟨k, atK⟩ := List.mem_iff_getElem?.1 listed
    have atFanin := fanin_of_getElem? atNode atK
    obtain ⟨j, isIndex⟩ := Option.isSome_iff_exists.1 (inv.attached.fanin atFanin)
    have atFanout := inv.linked.fanin atFanin isIndex
    obtain ⟨_, isFanouts, -⟩ := Option.bind_eq_some_iff.1 atFanout
    have isR := inv.indexed.eq_of_nameAt (field_isSome isFanouts) atR (congrArg TensorId.node isInput)
    rw [isR] at atFanout
    exact ⟨_, j, k, atFanout⟩
  · obtain ⟨fanin, -, isInput⟩ := List.mem_map.1 controlling
    cases congrArg TensorId.index isInput

theorem Navigable.controlled_of_controlledBy (inv : view.Navigable)
    (controls : view.ControlledBy c r) : ∃ j k, view.controlled r j = some ⟨c, k⟩ := by
  obtain ⟨consumer, producer, atC, atR, mem⟩ := controls
  obtain ⟨node, atNode⟩ := inv.indexed.node atC
  rw [inv.inputs atNode atC] at mem
  rcases List.mem_append.1 mem with regular | controlling
  · obtain ⟨fanin, -, isInput⟩ := List.mem_map.1 regular
    cases congrArg TensorId.index isInput
  · obtain ⟨fanin, listed, isInput⟩ := List.mem_map.1 controlling
    obtain ⟨k, atK⟩ := List.mem_iff_getElem?.1 listed
    have atFanin : view.control c k = some fanin := by
      rw [control, field_of_getElem? atNode]
      exact atK
    obtain ⟨j, isIndex⟩ := Option.isSome_iff_exists.1 (inv.attached.control atFanin)
    have atFanout := inv.linked.control atFanin isIndex
    obtain ⟨_, isFanouts, -⟩ := Option.bind_eq_some_iff.1 atFanout
    have isR := inv.indexed.eq_of_nameAt (field_isSome isFanouts) atR (congrArg TensorId.node isInput)
    rw [isR] at atFanout
    exact ⟨j, k, atFanout⟩

end Readers

end MutableGraphView

end Itex.GraphUtils
