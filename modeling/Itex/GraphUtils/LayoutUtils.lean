import Itex.GraphUtils.Construction

/-!
Contract: the workspace of a max pooling gradient (`itex/core/graph/utils/layout_utils.cc`).

Owns: the test for a gradient that is rewritten, the input that is added, and for which wirings
this is the workspace of the op whose output the gradient reads.

Does not own: the rewriting of the node, and the meta tensors.
-/

namespace Itex.GraphUtils

open Itex.Graph (Failure TensorId NodeDef GraphDef)

/-- A rewritten op with `MaxPool` in its name. -/
def isRewrittenMaxPool (op : String) : Bool :=
  (op.toList.take 7 = "_OneDnn".toList ∨ op.toList.take 5 = "_ITEX".toList) ∧ "MaxPool".toList <:+: op.toList

structure WorkSpaceInfo where
  bwdOp : String
  bwdSlot : Nat
  wsFwdSlot : Nat

def workspaceInfo : List WorkSpaceInfo := [⟨"MaxPoolGrad", 1, 1⟩, ⟨"MaxPool3DGrad", 1, 1⟩, ⟨"MaxPoolGradV2", 1, 1⟩]

/-- The outputs that the forward ops are registered with, without meta tensors. -/
def forwardOutputs : List (String × List String) :=
  ["_ITEXMaxPool", "_ITEXMaxPoolV2", "_ITEXMaxPool3D", "_OneDnnMaxPool", "_OneDnnMaxPool3D"].map
    fun op => (op, ["output", "workspace"])

namespace MutableGraphView

variable {view : MutableGraphView} {g : Nat}

def rewriteMaxPoolGrad (view : MutableGraphView) (g : Nat) : Except Failure Bool := do
  let fanin ← fetch (← fetch view.nodes g).regularFanins 1
  let op := (← fetch view.graph fanin.nodeIndex).nodeDef.op
  if !isRewrittenMaxPool op then return false
  let maxpool ← fetch view.nodes fanin.nodeIndex
  return (maxpool.regularFanoutsByPort.getD 0 []).any (·.nodeIndex == g)

/-- The new node, and the op whose workspace it reads. -/
def addWorkspace (view : MutableGraphView) (g : Nat) (newNodeDef : NodeDef) :
    Except Failure (NodeDef × Option NodeDef) := do
  let op := (← fetch view.graph g).nodeDef.op
  match workspaceInfo.find? (·.bwdOp == op) with
  | none => return (newNodeDef, none)
  | some info =>
    let fanin ← fetch (← fetch view.nodes g).regularFanins info.bwdSlot
    let faninDef := (← fetch view.graph fanin.nodeIndex).nodeDef
    return ({ newNodeDef with input := newNodeDef.input ++ [⟨faninDef.name, .port info.wsFwdSlot⟩] }, some faninDef)

/-- Input 1 is output 0 of a forward op, and the new input is the workspace of this op. -/
def GetsOwnWorkspace (view : MutableGraphView) (g : Nat) (newNodeDef : NodeDef) : Prop :=
  ∃ fanin forward outputs workspace, view.fanin g 1 = some fanin ∧ fanin.index = 0 ∧
    view.nodeDef? fanin.nodeIndex = some forward ∧ (forward.op, outputs) ∈ forwardOutputs ∧
    outputs[workspace]? = some "workspace" ∧ view.addWorkspace g newNodeDef = .ok
      ({ newNodeDef with input := newNodeDef.input ++ [⟨forward.name, .port workspace⟩] }, some forward)

theorem fetch_nodeDef {def_ : NodeDef} (isDef : view.nodeDef? g = some def_) :
    ∃ stored, fetch view.graph g = .ok stored ∧ stored.nodeDef = def_ := by
  obtain ⟨stored, isStored, isNodeDef⟩ := Option.map_eq_some_iff.1 isDef
  exact ⟨stored, by rw [fetch, isStored], isNodeDef⟩

theorem fetch_fanin {k : Nat} {fanin : RegularFanin} (isFanin : view.fanin g k = some fanin) :
    ∃ node, fetch view.nodes g = .ok node ∧ fetch node.regularFanins k = .ok fanin := by
  obtain ⟨fanins, atNode, isFanin⟩ := Option.bind_eq_some_iff.1 isFanin
  obtain ⟨node, isNode, rfl⟩ := Option.map_eq_some_iff.1 atNode
  exact ⟨node, by rw [fetch, isNode], by rw [fetch, isFanin]⟩

/-- The fanouts of output 0 lead to the readers of output 0. -/
theorem any_fanout_iff (linked : view.Linked) (attached : view.Attached) {p : Nat} {producer : MutableNodeView}
    (isProducer : view.nodes[p]? = some producer) : (producer.regularFanoutsByPort.getD 0 []).any (·.nodeIndex == g) ↔
      ∃ k reading, view.fanin g k = some reading ∧ reading.nodeIndex = p ∧ reading.index = 0 := by
  have fanouts : ∀ j, view.fanout p 0 j = (producer.regularFanoutsByPort.getD 0 [])[j]? := by
    intro j
    rw [MutableGraphView.fanout, field, isProducer, Option.map_some, Option.bind_some, List.getD_eq_getElem?_getD]
    cases producer.regularFanoutsByPort[0]? <;> rfl
  constructor
  · intro taken
    obtain ⟨fanout, mem, isG⟩ := List.any_eq_true.1 taken
    obtain ⟨j, atJ⟩ := List.mem_iff_getElem?.1 mem
    have reading := linked.fanout ((fanouts j).trans atJ)
    rw [beq_iff_eq.1 isG] at reading
    exact ⟨_, _, reading, rfl, rfl⟩
  · rintro ⟨k, reading, isReading, isP, isZero⟩
    obtain ⟨j, atJ⟩ := Option.isSome_iff_exists.1 (attached.fanin isReading)
    have isFanout := linked.fanin isReading atJ
    rw [isP, isZero, fanouts] at isFanout
    exact List.any_eq_true.2 ⟨_, List.mem_of_getElem? isFanout, beq_self_eq_true g⟩

theorem rewriteMaxPoolGrad_iff (navigable : view.Navigable) {fanin : RegularFanin}
    (atOne : view.fanin g 1 = some fanin) {producer : NodeDef} (isProducer : view.nodeDef? fanin.nodeIndex = some producer) :
    view.rewriteMaxPoolGrad g = .ok true ↔ isRewrittenMaxPool producer.op = true ∧
      ∃ k reading, view.fanin g k = some reading ∧ reading.nodeIndex = fanin.nodeIndex ∧ reading.index = 0 := by
  obtain ⟨node, isNode, isFanin⟩ := fetch_fanin atOne
  obtain ⟨stored, isStored, rfl⟩ := fetch_nodeDef isProducer
  obtain ⟨j, atJ⟩ := Option.isSome_iff_exists.1 (navigable.attached.fanin atOne)
  obtain ⟨fanouts, atProducer, -⟩ := Option.bind_eq_some_iff.1 (navigable.linked.fanin atOne atJ)
  obtain ⟨maxpool, isMaxpool, -⟩ := Option.map_eq_some_iff.1 atProducer
  have isFetched : fetch view.nodes fanin.nodeIndex = .ok maxpool := by rw [fetch, isMaxpool]
  have ran : view.rewriteMaxPoolGrad g = if !isRewrittenMaxPool stored.nodeDef.op then .ok false
      else .ok ((maxpool.regularFanoutsByPort.getD 0 []).any (·.nodeIndex == g)) := by
    simp only [rewriteMaxPoolGrad, isNode, isFanin, isStored, isFetched, bind, Except.bind]
    rfl
  rw [ran, ← any_fanout_iff navigable.linked navigable.attached isMaxpool]
  cases isRewrittenMaxPool stored.nodeDef.op <;> simp

def poolingGraph (first second : Nat) : GraphDef :=
  [⟨"x", "Placeholder", "", [], ∅⟩, ⟨"pool", "_ITEXMaxPool", "", [⟨"x", .port 0⟩], ∅⟩,
    ⟨"grad", "MaxPoolGrad", "", [⟨"pool", .port first⟩, ⟨"pool", .port second⟩, ⟨"x", .port 0⟩], ∅⟩]

end MutableGraphView

end Itex.GraphUtils
