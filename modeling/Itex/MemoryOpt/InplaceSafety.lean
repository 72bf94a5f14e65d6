import Itex.GraphUtils.Construction
import Itex.MemoryOpt.Inplace

/-!
Contract: which inputs `StaticInplaceOpt` marks a node to overwrite.

Owns: that every mark passed the pass's tests, that these tests are enough where the output
they look at is the one that feeds the port, and that then an output is overwritten by one
node at most.
-/

namespace Itex.MemoryOpt

open Itex.Lib (of_guard)

open Itex.Graph (Failure require AttrValue NodeDef GraphDef)
open Itex.GraphUtils Itex.GraphUtils.MutableGraphView Itex.Lib Relation

variable {fanin : RegularFanin} {index v : Nat}

/-! ## Safety -/

def RegularEdge (view : MutableGraphView) (u v : Nat) : Prop :=
  ∃ k fanin, view.fanin v k = some fanin ∧ fanin.nodeIndex = u

def TopologicallySorted (view : MutableGraphView) : Prop :=
  ∀ {u v : Nat}, RegularEdge view u v → u < v

theorem TopologicallySorted.lt_of_transGen {view : MutableGraphView}
    (sorted : TopologicallySorted view) {u : Nat} (path : TransGen (RegularEdge view) u v) : u < v := by
  induction path with
  | single edge => exact sorted edge
  | tail _ edge ih => exact Nat.lt_trans ih (sorted edge)

/-- Node `v` may overwrite the tensor at its input `p`: every other consumer of that output
has run before, and the producer is neither constant nor preserved. -/
structure SafeToOverwrite (view : MutableGraphView) (nodesToPreserve : List String) (v p : Nat)
    (fanin : RegularFanin) : Prop where
  reads : view.fanin v p = some fanin
  producer : ∃ target, view.nodeDef? fanin.nodeIndex = some target ∧
    target.name ∉ nodesToPreserve ∧ isAnyConst target = false
  others : ∀ {c k : Nat} {other : RegularFanin}, view.fanin c k = some other →
    other.nodeIndex = fanin.nodeIndex → other.index = fanin.index → (c, k) ≠ (v, p) →
    TransGen (RegularEdge view) c v

/-- The traversal goes on from node `v` to its input `u`. -/
def Leads (view : MutableGraphView) (u v : Nat) : Prop :=
  RegularEdge view u v ∧ ∃ node, view.nodes[v]? = some node ∧ node.controlledFanouts = []

/-- The traversal comes to node `v`, from a node on the device. -/
def Reached (view : MutableGraphView) (deviceName : String) (v : Nat) : Prop :=
  ∃ start def_, view.nodeDef? start = some def_ ∧ nodeIsOnDevice deviceName def_ = true ∧
    ReflTransGen (Leads view) v start

/-- Input `p` of node `v` is a candidate that the pass tests. -/
structure Candidate (intelCpuOnly : Bool) (view : MutableGraphView) (nodesToPreserve : List String)
    (deviceName : String) (v p : Nat) (fanin : RegularFanin) : Prop where
  reached : Reached view deviceName v
  reads : view.fanin v p = some fanin
  rule : ∃ node def_ ports, view.nodes[v]? = some node ∧ view.nodeDef? v = some def_ ∧
    node.controlledFanouts = [] ∧ getCandidateForwardPort intelCpuOnly node def_ = .ok ports ∧ p ∈ ports
  producer : ∃ def_ target, view.nodeDef? v = some def_ ∧
    view.nodeDef? fanin.nodeIndex = some target ∧ target.name ∉ nodesToPreserve ∧
    isAnyConst target = false ∧ def_.device = target.device

/-- No output of the producer below the one at `p` feeds the node as well. -/
def LowestOutput (view : MutableGraphView) (v : Nat) (fanin : RegularFanin) : Prop :=
  ∀ k other, view.fanin v k = some other → other.nodeIndex = fanin.nodeIndex → fanin.index ≤ other.index

/-- The test of the pass, on the consumers of the first output that the node reads. -/
def TestPassed (view : MutableGraphView) (v : Nat) (fanin : RegularFanin) : Prop :=
  ∃ target, view.nodes[fanin.nodeIndex]? = some target ∧ ((outPortFanouts v target).length = 1 ∨
      ∃ first second, outPortFanouts v target = [first, second] ∧
        ((first.nodeIndex = v ∧ TransGen (RegularEdge view) second.nodeIndex v) ∨
          TransGen (RegularEdge view) first.nodeIndex v))

/-! ## The bounded search -/

theorem fanin_eq_some {view : MutableGraphView} {k : Nat} :
    view.fanin v k = some fanin ↔ ∃ node, view.nodes[v]? = some node ∧ node.regularFanins[k]? = some fanin := by
  simp [MutableGraphView.fanin, MutableGraphView.field, Option.bind_eq_some_iff]

theorem searchBackward_reaches {view : MutableGraphView} {refIndex : Nat} :
    ∀ {remain : Nat} {queue : List Nat}, searchBackward view refIndex remain queue = .ok true →
      ∃ index ∈ queue, ReflTransGen (RegularEdge view) refIndex index := by
  intro remain
  induction remain with
  | zero =>
    intro queue found
    cases found
  | succ remain ih =>
    intro queue found
    cases queue with
    | nil => cases found
    | cons index queue =>
      unfold searchBackward at found
      by_cases isRef : index = refIndex
      · exact ⟨index, List.mem_cons_self, by rw [isRef]⟩
      · rw [if_neg isRef] at found
        obtain ⟨node, atNode, found⟩ := bind_ok.1 found
        obtain ⟨reached, mem, path⟩ := ih found
        rcases List.mem_append.1 mem with inQueue | isFanin
        · exact ⟨reached, List.mem_cons_of_mem _ inQueue, path⟩
        · obtain ⟨fanin, listed, rfl⟩ := List.mem_map.1 isFanin
          obtain ⟨k, atK⟩ := List.mem_iff_getElem?.1 listed
          have atFanin := fanin_of_getElem? (fetch_eq_ok.1 atNode) atK
          exact ⟨index, List.mem_cons_self, path.tail ⟨k, fanin, atFanin, rfl⟩⟩

section Tests

variable {view : MutableGraphView} {nodeView : MutableNodeView} {p : Nat}

theorem targetOf_eq_ok {target : Nat × MutableNodeView} (found : targetOf view nodeView p = .ok target) :
    ∃ fanin, nodeView.regularFanins[p]? = some fanin ∧ target.1 = fanin.nodeIndex ∧
      view.nodes[fanin.nodeIndex]? = some target.2 := by
  obtain ⟨fanin, atFanin, found⟩ := bind_ok.1 found
  obtain ⟨node, atNode, found⟩ := bind_ok.1 found
  cases found
  exact ⟨fanin, fetch_eq_ok.1 atFanin, rfl, fetch_eq_ok.1 atNode⟩

theorem transGen_of_search {refIndex remain : Nat} {queue : List Nat} (atNode : view.nodes[v]? = some nodeView)
    (fromInputs : ∀ index ∈ queue, ∃ fanin ∈ nodeView.regularFanins, fanin.nodeIndex = index)
    (found : searchBackward view refIndex remain queue = .ok true) : TransGen (RegularEdge view) refIndex v := by
  obtain ⟨index, mem, path⟩ := searchBackward_reaches found
  obtain ⟨fanin, listed, isIndex⟩ := fromInputs index mem
  obtain ⟨k, atK⟩ := List.mem_iff_getElem?.1 listed
  have atFanin := fanin_of_getElem? atNode atK
  exact TransGen.tail' path ⟨k, fanin, atFanin, isIndex⟩

theorem isSafeForwarding_passes {intelCpuOnly : Bool} {node : NodeDef}
    (atNode : view.nodes[v]? = some nodeView) (isIndex : nodeView.nodeIndex = v)
    (atFanin : nodeView.regularFanins[p]? = some fanin)
    (safe : isSafeForwarding intelCpuOnly view nodeView node p = .ok true) : TestPassed view v fanin := by
  unfold isSafeForwarding at safe
  obtain ⟨⟨_, target⟩, found, safe⟩ := bind_ok.1 safe
  obtain ⟨fanin', atFanin', -, atTarget⟩ := targetOf_eq_ok found
  rw [atFanin] at atFanin'
  cases atFanin'
  refine ⟨target, atTarget, ?_⟩
  dsimp only at safe
  rw [isIndex] at safe
  split at safe
  next single =>
    left
    rw [single]
    rfl
  next first second pair =>
    right
    refine ⟨first, second, pair, ?_⟩
    -- Both searches start from inputs of the node.
    have ancestor : TransGen (RegularEdge view)
        (if first.nodeIndex ≠ v then first.nodeIndex else second.nodeIndex) v := by
      generalize (if first.nodeIndex ≠ v then first.nodeIndex else second.nodeIndex) = refIndex at safe ⊢
      obtain ⟨-, safe⟩ := of_guard safe
      obtain ⟨-, safe⟩ := of_guard safe
      split at safe
      · apply transGen_of_search atNode _ safe
        intro index mem
        obtain ⟨input, listed, isInput⟩ := List.mem_map.1 mem
        exact ⟨input, listed, isInput⟩
      · obtain ⟨⟨inputIndex, _⟩, foundInput, safe⟩ := bind_ok.1 safe
        obtain ⟨input, atInput, isInput, -⟩ := targetOf_eq_ok foundInput
        apply transGen_of_search atNode _ safe
        intro index mem
        rw [List.mem_singleton.1 mem]
        exact ⟨input, List.mem_of_getElem? atInput, isInput.symm⟩
    grind
  · cases safe
  · cases safe

/-- The test is enough where the first output that the node reads is the one at the port. -/
theorem TestPassed.safe {intelCpuOnly : Bool} {nodesToPreserve : List String} {deviceName : String}
    (navigable : view.Navigable) (acyclic : TopologicallySorted view)
    (candidate : Candidate intelCpuOnly view nodesToPreserve deviceName v p fanin)
    (passed : TestPassed view v fanin) (lowest : LowestOutput view v fanin) :
    SafeToOverwrite view nodesToPreserve v p fanin := by
  obtain ⟨_, target, -, atTarget, notPreserved, notConst, -⟩ := candidate.producer
  refine ⟨candidate.reads, ⟨target, atTarget, notPreserved, notConst⟩, ?_⟩
  intro c k other atOther sameNode samePort ne
  obtain ⟨producer, atProducer, passed⟩ := passed
  -- Both consumers are among the fanouts of the output.
  have listed : ∀ {i j : Nat} {entry : RegularFanin}, view.fanin i j = some entry →
      entry.nodeIndex = fanin.nodeIndex → entry.index = fanin.index →
      ∃ n : Nat, (producer.regularFanoutsByPort.getD fanin.index [])[n]? = some ⟨i, j⟩ := by
    intro i j entry atEntry isNode isPort
    obtain ⟨n, isN⟩ := Option.isSome_iff_exists.1 (navigable.attached.fanin atEntry)
    have atFanout := navigable.linked.fanin atEntry isN
    rw [isNode, isPort, MutableGraphView.fanout, field_of_getElem? atProducer, Option.bind_some] at atFanout
    obtain ⟨fanouts, atPort, atN⟩ := Option.bind_eq_some_iff.1 atFanout
    refine ⟨n, ?_⟩
    rw [List.getD_eq_getElem?_getD, atPort]
    exact atN
  obtain ⟨own, atOwn⟩ := listed candidate.reads rfl rfl
  obtain ⟨theirs, atTheirs⟩ := listed atOther sameNode samePort
  have distinct : own ≠ theirs := by
    intro same
    rw [same, atTheirs] at atOwn
    cases atOwn
    exact ne rfl
  -- The first output that the node reads is the one at the port.
  have isOutput : outPortFanouts v producer = producer.regularFanoutsByPort.getD fanin.index [] := by
    have inside : fanin.index < producer.regularFanoutsByPort.length := by
      by_contra outside
      rw [List.getD_eq_getElem?_getD, List.getElem?_eq_none (Nat.not_lt.1 outside)] at atOwn
      cases atOwn
    have atPort := List.getElem?_eq_getElem inside
    have isFirst : getOutPort v producer = some fanin.index := by
      unfold getOutPort
      rw [List.findIdx?_eq_some_iff_getElem]
      refine ⟨inside, ?_, ?_⟩
      · rw [List.any_eq_true]
        rw [List.getD_eq_getElem?_getD, atPort] at atOwn
        exact ⟨_, List.mem_of_getElem? atOwn, by simp⟩
      · intro port below
        rw [List.any_eq_true]
        rintro ⟨fanout, mem, isNode⟩
        obtain ⟨n, atN⟩ := List.mem_iff_getElem?.1 mem
        have atFanout : view.fanout fanin.nodeIndex port n = some fanout := by
          rw [MutableGraphView.fanout, field_of_getElem? atProducer, Option.bind_some,
            List.getElem?_eq_getElem (Nat.lt_trans below inside)]
          exact atN
        have atFanin := navigable.linked.fanout atFanout
        have isV : fanout.nodeIndex = v := by simpa using isNode
        rw [isV] at atFanin
        exact absurd (lowest _ _ atFanin rfl) (Nat.not_le.2 below)
    unfold outPortFanouts
    rw [isFirst]
  rw [isOutput] at passed
  rcases passed with single | ⟨first, second, pair, ancestor⟩
  · have boundOwn := read_lt atOwn
    have boundTheirs := read_lt atTheirs
    omega
  · rw [pair] at atOwn atTheirs
    have irreflexive : ¬ TransGen (RegularEdge view) v v :=
      fun cycle => Nat.lt_irrefl v (acyclic.lt_of_transGen cycle)
    grind

theorem getStaticRefCount_passes (isIndex : nodeView.nodeIndex = v)
    (atFanin : nodeView.regularFanins[p]? = some fanin)
    (counted : getStaticRefCount view nodeView p = .ok 1) : TestPassed view v fanin := by
  obtain ⟨⟨_, target⟩, found, counted⟩ := bind_ok.1 counted
  obtain ⟨fanin', atFanin', -, atTarget⟩ := targetOf_eq_ok found
  rw [atFanin] at atFanin'
  cases atFanin'
  obtain ⟨_, -, counted⟩ := bind_ok.1 counted
  refine ⟨target, atTarget, .inl ?_⟩
  rw [← isIndex]
  exact Except.ok.inj counted

end Tests

/-! ## A run -/

def writtenAttrs : List String := ["inplace_sum", "is_inplace", "candidate_inplace_input_edge"]

/-- Nodes that differ in written attributes only. -/
structure Agrees (def_ def_' : NodeDef) : Prop where
  name : def_'.name = def_.name
  op : def_'.op = def_.op
  device : def_'.device = def_.device
  attr : ∀ name, name ∉ writtenAttrs → def_'.attr.lookup name = def_.attr.lookup name

theorem Agrees.getCandidateForwardPort {def_ def_' : NodeDef} (agrees : Agrees def_ def_')
    (intelCpuOnly : Bool) (nodeView : MutableNodeView) : getCandidateForwardPort intelCpuOnly nodeView def_' =
      getCandidateForwardPort intelCpuOnly nodeView def_ := by
  have fusedOps : attrAt def_' "fused_ops" = attrAt def_ "fused_ops" := by
    unfold attrAt
    rw [agrees.attr "fused_ops" (by decide)]
  have tout : getDataTypeFromAttr def_' "Tout" = getDataTypeFromAttr def_ "Tout" := by
    unfold getDataTypeFromAttr
    rw [agrees.attr "Tout" (by decide)]
  have tpost : getDataTypeFromAttr def_' "Tpost" = getDataTypeFromAttr def_ "Tpost" := by
    unfold getDataTypeFromAttr
    rw [agrees.attr "Tpost" (by decide)]
  have graphPorts : onednnGraphForwardPort intelCpuOnly nodeView def_' =
      onednnGraphForwardPort intelCpuOnly nodeView def_ := by
    unfold onednnGraphForwardPort
    rw [agrees.op]
  unfold MemoryOpt.getCandidateForwardPort
  rw [fusedOps, tout, tpost, graphPorts, agrees.op]

/-- What holds of the pass at any time, in terms of the graph it started with. -/
structure Progressed (intelCpuOnly : Bool) (view : MutableGraphView) (nodesToPreserve : List String)
    (deviceName : String) (search : Search) : Prop where
  nodes : search.view.nodes = view.nodes
  graph : ∀ {i : Nat} {def_' : NodeDef}, search.view.nodeDef? i = some def_' →
    ∃ def_, view.nodeDef? i = some def_ ∧ Agrees def_ def_'
  marked : ∀ {v p : Nat}, (v, p) ∈ search.marked →
    ∃ fanin, Candidate intelCpuOnly view nodesToPreserve deviceName v p fanin ∧ TestPassed view v fanin

section Run

variable {intelCpuOnly : Bool} {view : MutableGraphView} {nodesToPreserve : List String}
variable {deviceName : String}
variable {search search' : Search}

theorem Progressed.setInfo (progressed : Progressed intelCpuOnly view nodesToPreserve deviceName search)
    (index : Nat) (change : SearchInfo → SearchInfo) :
    Progressed intelCpuOnly view nodesToPreserve deviceName (search.setInfo index change) :=
  ⟨progressed.nodes, progressed.graph, progressed.marked⟩

theorem Progressed.mark (progressed : Progressed intelCpuOnly view nodesToPreserve deviceName search)
    {p : Nat} {name : String} {value : AttrValue} (written : name ∈ writtenAttrs)
    (candidate : Candidate intelCpuOnly view nodesToPreserve deviceName v p fanin) (passed : TestPassed view v fanin) :
    Progressed intelCpuOnly view nodesToPreserve deviceName (search.mark v p name value) := by
  refine ⟨progressed.nodes, ?_, ?_⟩
  · intro i def_' atDef
    change (search.view.modifyNodeDef v _).nodeDef? i = some def_' at atDef
    rw [nodeDef?_modifyNodeDef] at atDef
    by_cases same : i = v
    · rw [if_pos same] at atDef
      obtain ⟨old, atOld, rfl⟩ := Option.map_eq_some_iff.1 atDef
      obtain ⟨def_, atStart, agrees⟩ := progressed.graph atOld
      refine ⟨def_, atStart, ⟨agrees.name, agrees.op, agrees.device, ?_⟩⟩
      intro other unwritten
      have ne : other ≠ name := fun isName => unwritten (isName ▸ written)
      show (old.attr.insert name value).lookup other = _
      rw [AList.lookup_insert_ne ne]
      exact agrees.attr other unwritten
    · rw [if_neg same] at atDef
      exact progressed.graph atDef
  · intro v' p' mem
    rcases List.mem_append.1 mem with earlier | isNew
    · exact progressed.marked earlier
    · cases List.mem_singleton.1 isNew
      exact ⟨fanin, candidate, passed⟩

theorem regularEdge_congr {view view' : MutableGraphView} (same : view'.nodes = view.nodes) :
    RegularEdge view' = RegularEdge view := by
  funext u v
  unfold RegularEdge MutableGraphView.fanin MutableGraphView.field
  rw [same]

theorem TestPassed.congr {view view' : MutableGraphView} (same : view'.nodes = view.nodes)
    (passed : TestPassed view' v fanin) : TestPassed view v fanin := by
  unfold TestPassed at passed ⊢
  rw [regularEdge_congr same, same] at passed
  exact passed

theorem checkDependence_cases {nodeView : MutableNodeView} {p : Nat}
    (ran : search.checkDependence intelCpuOnly nodeView p = .ok search') :
    search' = search ∨ (search' = search.setInfo nodeView.nodeIndex fun info => { info with isInplace := false }) ∨
      ∃ name value, name ∈ writtenAttrs ∧ search' = search.mark nodeView.nodeIndex p name value ∧
        ((∃ node, isSafeForwarding intelCpuOnly search.view nodeView node p = .ok true) ∨
          getStaticRefCount search.view nodeView p = .ok 1) := by
  unfold Search.checkDependence at ran
  dsimp only at ran
  obtain ⟨stored, -, ran⟩ := bind_ok.1 ran
  split at ran
  · obtain ⟨safe, isSafe, ran⟩ := bind_ok.1 ran
    cases safe with
    | false =>
      cases ran
      exact .inl rfl
    | true =>
      cases ran
      exact .inr (.inr ⟨_, _, by decide, rfl, .inl ⟨_, isSafe⟩⟩)
  · split at ran
    · obtain ⟨safe, isSafe, ran⟩ := bind_ok.1 ran
      cases safe with
      | false =>
        cases ran
        exact .inl rfl
      | true =>
        obtain ⟨frameworkOps, -, ran⟩ := bind_ok.1 ran
        split at ran
        · obtain ⟨edges, -, ran⟩ := bind_ok.1 ran
          obtain ⟨_, -, ran⟩ := bind_ok.1 ran
          cases ran
          exact .inr (.inr ⟨_, _, by decide, rfl, .inl ⟨_, isSafe⟩⟩)
        · cases ran
          exact .inl rfl
    · obtain ⟨refCount, counted, ran⟩ := bind_ok.1 ran
      split at ran
      · cases ran
        exact .inl rfl
      · split at ran
        next isOne =>
          rw [isOne] at counted
          cases ran
          exact .inr (.inr ⟨_, _, by decide, rfl, .inr counted⟩)
        · split at ran
          · cases ran
            exact .inr (.inl rfl)
          · cases ran
            exact .inl rfl

theorem checkDependence_progressed (progressed : Progressed intelCpuOnly view nodesToPreserve deviceName search)
    {nodeView : MutableNodeView} {p : Nat}
    (atNode : view.nodes[v]? = some nodeView) (isIndex : nodeView.nodeIndex = v)
    (candidate : Candidate intelCpuOnly view nodesToPreserve deviceName v p fanin)
    (ran : search.checkDependence intelCpuOnly nodeView p = .ok search') :
    Progressed intelCpuOnly view nodesToPreserve deviceName search' := by
  have atFanin : nodeView.regularFanins[p]? = some fanin := by
    have reads := candidate.reads
    rw [MutableGraphView.fanin, field_of_getElem? atNode] at reads
    exact reads
  have atNow : search.view.nodes[v]? = some nodeView := by rw [progressed.nodes]; exact atNode
  rcases checkDependence_cases ran with rfl | rfl | ⟨name, value, written, rfl, tested⟩
  · exact progressed
  · exact progressed.setInfo _ _
  · rw [isIndex]
    apply progressed.mark written candidate
    apply TestPassed.congr progressed.nodes
    rcases tested with ⟨node, safe⟩ | counted
    · exact isSafeForwarding_passes atNow isIndex atFanin safe
    · exact getStaticRefCount_passes isIndex atFanin counted

theorem nodeDef?_of_fetch {view : MutableGraphView} {i : Nat} {stored : StoredNode}
    (fetched : fetch view.graph i = .ok stored) : view.nodeDef? i = some stored.nodeDef := by
  unfold MutableGraphView.nodeDef?
  rw [fetch_eq_ok.1 fetched]
  rfl

theorem detectUnvisitedNode_progressed
    (progressed : Progressed intelCpuOnly view nodesToPreserve deviceName search) {nodeView : MutableNodeView}
    (atNode : view.nodes[v]? = some nodeView) (isIndex : nodeView.nodeIndex = v)
    (reached : Reached view deviceName v) (noControlled : nodeView.controlledFanouts = [])
    (ran : search.detectUnvisitedNode intelCpuOnly nodesToPreserve nodeView = .ok search') :
    Progressed intelCpuOnly view nodesToPreserve deviceName search' := by
  unfold Search.detectUnvisitedNode at ran
  rw [isIndex] at ran
  obtain ⟨info, -, ran⟩ := bind_ok.1 ran
  split at ran
  · cases ran
    exact progressed
  · obtain ⟨stored, isStored, ran⟩ := bind_ok.1 ran
    obtain ⟨ports, isPorts, ran⟩ := bind_ok.1 ran
    obtain ⟨def_, atDef, agrees⟩ := progressed.graph (nodeDef?_of_fetch isStored)
    rw [agrees.getCandidateForwardPort] at isPorts
    refine foldlM_invariant (fun _ reached => Progressed intelCpuOnly view nodesToPreserve deviceName reached)
      progressed ?_ ran
    intro seen p rest before after split isBefore stepped
    have listed : p ∈ ports := by rw [split]; simp
    unfold Search.checkCandidate at stepped
    rw [isIndex] at stepped
    obtain ⟨own, isOwn, stepped⟩ := bind_ok.1 stepped
    obtain ⟨⟨targetIndex, _⟩, foundTarget, stepped⟩ := bind_ok.1 stepped
    obtain ⟨target, isTarget, stepped⟩ := bind_ok.1 stepped
    obtain ⟨fanin, atFanin, isFanin, -⟩ := targetOf_eq_ok foundTarget
    split at stepped
    · cases stepped
      exact isBefore
    next wanted =>
      split at stepped
      · cases stepped
        exact isBefore
      next sameDevice =>
        obtain ⟨ownDef, atOwn, ownAgrees⟩ := isBefore.graph (nodeDef?_of_fetch isOwn)
        obtain ⟨targetDef, atTarget, targetAgrees⟩ := isBefore.graph (nodeDef?_of_fetch isTarget)
        dsimp only at isFanin
        rw [isFanin] at atTarget
        have candidate : Candidate intelCpuOnly view nodesToPreserve deviceName v p fanin := by
          refine ⟨reached, ?_, ⟨nodeView, def_, ports, atNode, atDef, noControlled, isPorts, listed⟩,
            ⟨ownDef, targetDef, atOwn, atTarget, ?_, ?_, ?_⟩⟩
          · exact fanin_of_getElem? atNode atFanin
          · rw [← targetAgrees.name]
            intro preserved
            apply wanted
            simp [preserved]
          · rw [Bool.eq_false_iff]
            intro isConst
            apply wanted
            unfold isAnyConst at isConst ⊢
            rw [targetAgrees.op, isConst]
            simp
          · rw [← ownAgrees.device, ← targetAgrees.device]
            simpa using sameDevice
        exact checkDependence_progressed isBefore atNode isIndex candidate stepped

theorem inplaceInference_progressed (indexed : view.Indexed) :
    ∀ (turns : Nat) {search search' : Search} {index : Nat}, Reached view deviceName index →
      Progressed intelCpuOnly view nodesToPreserve deviceName search →
      Search.inplaceInference intelCpuOnly nodesToPreserve turns search index = .ok search' →
      Progressed intelCpuOnly view nodesToPreserve deviceName search' := by
  intro turns
  induction turns with
  | zero =>
    intro search search' index _ _ ran
    cases ran
  | succ turns ih =>
    intro search search' index reached progressed ran
    unfold Search.inplaceInference at ran
    obtain ⟨nodeView, isNode, ran⟩ := bind_ok.1 ran
    obtain ⟨info, -, ran⟩ := bind_ok.1 ran
    have atNode : view.nodes[index]? = some nodeView := by
      rw [← progressed.nodes]
      exact fetch_eq_ok.1 isNode
    have isIndex := indexed.nodeIndex atNode
    split at ran
    · cases ran
      exact progressed
    · split at ran
      · cases ran
        exact progressed
      next noControlled =>
        obtain ⟨detected, isDetected, ran⟩ := bind_ok.1 ran
        obtain ⟨done, isDone, ran⟩ := bind_ok.1 ran
        cases ran
        have noControlled : nodeView.controlledFanouts = [] := by
          rw [← List.length_eq_zero_iff]
          omega
        have afterDetect :=
          detectUnvisitedNode_progressed progressed atNode isIndex reached noControlled isDetected
        have faninReached : ∀ fanin ∈ nodeView.regularFanins, Reached view deviceName fanin.nodeIndex := by
          intro fanin mem
          obtain ⟨start, def_, atStart, onDevice, path⟩ := reached
          obtain ⟨k, atK⟩ := List.mem_iff_getElem?.1 mem
          have edge : RegularEdge view fanin.nodeIndex index :=
            ⟨k, fanin, fanin_eq_some.2 ⟨nodeView, atNode, atK⟩, rfl⟩
          exact ⟨start, def_, atStart, onDevice, path.head ⟨edge, nodeView, atNode, noControlled⟩⟩
        have afterFanins := foldlM_invariant
          (fun _ reached => Progressed intelCpuOnly view nodesToPreserve deviceName reached)
          (afterDetect.setInfo _ _) (fun _ fanin _ _ _ split before stepped =>
            ih (faninReached fanin (by rw [split]; simp)) before stepped) isDone
        exact afterFanins.setInfo _ _

theorem Progressed.start {sinfo : List SearchInfo} :
    Progressed intelCpuOnly view nodesToPreserve deviceName { view := view, sinfo := sinfo } := by
  refine ⟨rfl, fun {_ def_} atDef => ⟨def_, atDef, ⟨rfl, rfl, rfl, fun _ _ => rfl⟩⟩, ?_⟩
  intro v p mem
  cases mem

theorem startAt_progressed (indexed : view.Indexed)
    (progressed : Progressed intelCpuOnly view nodesToPreserve deviceName search)
    (ran : search.startAt intelCpuOnly nodesToPreserve deviceName index = .ok search') :
    Progressed intelCpuOnly view nodesToPreserve deviceName search' := by
  unfold Search.startAt at ran
  obtain ⟨info, -, ran⟩ := bind_ok.1 ran
  obtain ⟨stored, isStored, ran⟩ := bind_ok.1 ran
  split at ran
  · cases ran
    exact progressed
  · split at ran
    · cases ran
      exact progressed
    next onDevice =>
      obtain ⟨def_, atDef, agrees⟩ := progressed.graph (nodeDef?_of_fetch isStored)
      have isOn : nodeIsOnDevice deviceName def_ = true := by
        unfold nodeIsOnDevice at onDevice ⊢
        rw [← agrees.device]
        simpa using onDevice
      exact inplaceInference_progressed indexed _ ⟨index, def_, atDef, isOn, .refl⟩ progressed ran

theorem staticInplaceOpt_progressed (indexed : view.Indexed)
    (ran : staticInplaceOpt intelCpuOnly view nodesToPreserve deviceName = .ok search) :
    Progressed intelCpuOnly view nodesToPreserve deviceName search :=
  foldlM_invariant (fun _ reached => Progressed intelCpuOnly view nodesToPreserve deviceName reached)
    Progressed.start (fun _ _ _ _ _ _ before stepped => startAt_progressed indexed before stepped) ran

end Run

/-! ## The traversal ends -/

def outOfTurns : Failure := .crash "out of turns"

section Turns

variable {intelCpuOnly : Bool} {nodesToPreserve : List String} {search search' : Search}

def visitedFlags (search : Search) : List Bool := search.sinfo.map SearchInfo.isVisited

/-- Nodes that a call may still mark as visited. -/
def unvisited (search : Search) : Nat := (visitedFlags search).count false

theorem visitedFlags_setInfo (search : Search) (index : Nat) {change : SearchInfo → SearchInfo}
    (keeps : ∀ info, (change info).isVisited = info.isVisited) :
    visitedFlags (search.setInfo index change) = visitedFlags search := by
  unfold visitedFlags Search.setInfo
  apply List.ext_getElem?
  grind

theorem count_set_true {flags : List Bool} (atIndex : flags[index]? = some false) :
    (flags.set index true).count false < flags.count false := by
  induction flags generalizing index with
  | nil => cases atIndex
  | cons head tail ih =>
    grind

theorem unvisited_visit {info : SearchInfo} (atInfo : search.sinfo[index]? = some info)
    (new : info.isVisited = false) :
    unvisited (search.setInfo index fun info => { info with isVisited := true, isInstack := true }) <
      unvisited search := by
  have flags : visitedFlags (search.setInfo index fun info =>
      { info with isVisited := true, isInstack := true }) = (visitedFlags search).set index true := by
    unfold visitedFlags Search.setInfo
    apply List.ext_getElem?
    intro i
    rw [List.getElem?_map, getElem?_modify_ite, List.getElem?_set, List.getElem?_map]
    by_cases same : i = index
    · have bound := read_lt atInfo
      rw [if_pos same, if_pos same.symm, same, atInfo, List.length_map, if_pos bound]
      rfl
    · rw [if_neg same, if_neg (Ne.symm same)]
  unfold unvisited
  rw [flags]
  apply count_set_true
  unfold visitedFlags
  rw [List.getElem?_map, atInfo, Option.map_some, new]

theorem checkDependence_visitedFlags {nodeView : MutableNodeView} {p : Nat}
    (ran : search.checkDependence intelCpuOnly nodeView p = .ok search') :
    visitedFlags search' = visitedFlags search := by
  rcases checkDependence_cases ran with rfl | rfl | ⟨name, value, -, rfl, -⟩
  · rfl
  · exact visitedFlags_setInfo _ _ fun _ => rfl
  · exact visitedFlags_setInfo (search.setAttrValue nodeView.nodeIndex name value) _ fun _ => rfl

theorem detectUnvisitedNode_visitedFlags {nodeView : MutableNodeView}
    (ran : search.detectUnvisitedNode intelCpuOnly nodesToPreserve nodeView = .ok search') :
    visitedFlags search' = visitedFlags search := by
  unfold Search.detectUnvisitedNode at ran
  obtain ⟨info, -, ran⟩ := bind_ok.1 ran
  split at ran
  · cases ran
    rfl
  · obtain ⟨stored, -, ran⟩ := bind_ok.1 ran
    obtain ⟨ports, -, ran⟩ := bind_ok.1 ran
    refine foldlM_invariant (fun _ reached => visitedFlags reached = visitedFlags search) rfl ?_ ran
    intro seen p rest before after _ same stepped
    rw [← same]
    obtain ⟨own, -, stepped⟩ := bind_ok.1 stepped
    obtain ⟨target, -, stepped⟩ := bind_ok.1 stepped
    obtain ⟨targetDef, -, stepped⟩ := bind_ok.1 stepped
    split at stepped
    · cases stepped
      rfl
    · split at stepped
      · cases stepped
        rfl
      · exact checkDependence_visitedFlags stepped

theorem unvisited_detect {nodeView : MutableNodeView} {detected : Search} {info : SearchInfo}
    (isInfo : fetch search.sinfo nodeView.nodeIndex = .ok info) (new : info.isVisited = false)
    (isDetected : search.detectUnvisitedNode intelCpuOnly nodesToPreserve nodeView = .ok detected) :
    unvisited (detected.setInfo nodeView.nodeIndex fun info =>
      { info with isVisited := true, isInstack := true }) < unvisited search := by
  have flags := detectUnvisitedNode_visitedFlags isDetected
  have atFlag : (visitedFlags detected)[nodeView.nodeIndex]? = some false := by
    rw [flags]
    unfold visitedFlags
    rw [List.getElem?_map, fetch_eq_ok.1 isInfo, Option.map_some, new]
  unfold visitedFlags at atFlag
  rw [List.getElem?_map] at atFlag
  obtain ⟨info', atInfo, isNew⟩ := Option.map_eq_some_iff.1 atFlag
  have less := unvisited_visit atInfo isNew
  have same : unvisited detected = unvisited search := by
    unfold unvisited
    rw [flags]
  rw [same] at less
  exact less

theorem inplaceInference_unvisited (turns : Nat) : ∀ {search search' : Search} {index : Nat},
    Search.inplaceInference intelCpuOnly nodesToPreserve turns search index = .ok search' →
    unvisited search' ≤ unvisited search := by
  induction turns with
  | zero =>
    intro search search' index ran
    cases ran
  | succ turns ih =>
    intro search search' index ran
    unfold Search.inplaceInference at ran
    obtain ⟨nodeView, -, ran⟩ := bind_ok.1 ran
    obtain ⟨info, isInfo, ran⟩ := bind_ok.1 ran
    split at ran
    · cases ran
      exact Nat.le_refl _
    next new =>
      split at ran
      · cases ran
        exact Nat.le_refl _
      · obtain ⟨detected, isDetected, ran⟩ := bind_ok.1 ran
        obtain ⟨done, isDone, ran⟩ := bind_ok.1 ran
        cases ran
        have less := unvisited_detect isInfo (by simpa using new) isDetected
        have afterFanins := foldlM_invariant (fun _ reached => unvisited reached ≤ _)
          (Nat.le_refl _) (fun _ _ _ _ _ _ le stepped =>
            Nat.le_trans (ih stepped) le) isDone
        have flags : visitedFlags (done.setInfo nodeView.nodeIndex fun info =>
            { info with isInstack := false }) = visitedFlags done :=
          visitedFlags_setInfo done _ fun _ => rfl
        unfold unvisited at less afterFanins ⊢
        rw [flags]
        omega

theorem startAt_unvisited {deviceName : String}
    (ran : search.startAt intelCpuOnly nodesToPreserve deviceName index = .ok search') :
    unvisited search' ≤ unvisited search := by
  unfold Search.startAt at ran
  obtain ⟨info, -, ran⟩ := bind_ok.1 ran
  obtain ⟨stored, -, ran⟩ := bind_ok.1 ran
  split at ran
  · cases ran
    exact Nat.le_refl _
  · split at ran
    · cases ran
      exact Nat.le_refl _
    · exact inplaceInference_unvisited _ ran

theorem fetch_ne_outOfTurns {α : Type} (vector : List α) (index : Nat) : fetch vector index ≠ .error outOfTurns := by
  unfold fetch
  split <;> simp [outOfTurns]

theorem attrAt_ne_outOfTurns (node : NodeDef) (name : String) : attrAt node name ≠ .error outOfTurns := by
  unfold attrAt
  split <;> simp [outOfTurns]

theorem targetOf_ne_outOfTurns (view : MutableGraphView) (nodeView : MutableNodeView) (p : Nat) :
    targetOf view nodeView p ≠ .error outOfTurns := by
  apply bind_ne_error (fetch_ne_outOfTurns _ _)
  intro fanin _
  apply bind_ne_error (fetch_ne_outOfTurns _ _)
  intro target _
  simp [pure, Except.pure]

theorem searchBackward_ne_outOfTurns (view : MutableGraphView) (refIndex remain : Nat) :
    ∀ queue, searchBackward view refIndex remain queue ≠ .error outOfTurns := by
  induction remain with
  | zero =>
    intro queue
    simp [searchBackward]
  | succ remain ih =>
    intro queue
    cases queue with
    | nil => simp [searchBackward]
    | cons index queue =>
      unfold searchBackward
      split
      · simp
      · apply bind_ne_error (fetch_ne_outOfTurns _ _)
        intro node _
        exact ih _

theorem isSafeForwarding_ne_outOfTurns (view : MutableGraphView) (nodeView : MutableNodeView)
    (node : NodeDef) (p : Nat) : isSafeForwarding intelCpuOnly view nodeView node p ≠ .error outOfTurns := by
  apply bind_ne_error (targetOf_ne_outOfTurns _ _ _)
  intro target _
  dsimp only
  split
  · simp [pure, Except.pure]
  next first second _ =>
    generalize (if first.nodeIndex ≠ nodeView.nodeIndex then first.nodeIndex
      else second.nodeIndex) = refIndex
    split
    · simp [pure, Except.pure]
    · split
      · simp [pure, Except.pure]
      · split
        · exact searchBackward_ne_outOfTurns _ _ _ _
        · apply bind_ne_error (targetOf_ne_outOfTurns _ _ _)
          intro input _
          exact searchBackward_ne_outOfTurns _ _ _ _
  · simp [pure, Except.pure]
  · simp [outOfTurns]

theorem getStaticRefCount_ne_outOfTurns (view : MutableGraphView) (nodeView : MutableNodeView) (p : Nat) :
    getStaticRefCount view nodeView p ≠ .error outOfTurns := by
  apply bind_ne_error (targetOf_ne_outOfTurns _ _ _)
  intro target _
  apply bind_ne_error
  · unfold require
    split <;> simp [outOfTurns]
  · intro _ _
    simp [pure, Except.pure]

theorem checkDependence_ne_outOfTurns (nodeView : MutableNodeView) (p : Nat) :
    search.checkDependence intelCpuOnly nodeView p ≠ .error outOfTurns := by
  apply bind_ne_error (fetch_ne_outOfTurns _ _)
  intro stored _
  dsimp only
  split
  · apply bind_ne_error (isSafeForwarding_ne_outOfTurns _ _ _ _)
    intro safe _
    cases safe <;> simp [pure, Except.pure]
  · split
    · apply bind_ne_error (isSafeForwarding_ne_outOfTurns _ _ _ _)
      intro safe _
      cases safe with
      | false => simp [pure, Except.pure]
      | true =>
        apply bind_ne_error (attrAt_ne_outOfTurns _ _)
        intro frameworkOps _
        split
        · apply bind_ne_error (attrAt_ne_outOfTurns _ _)
          intro edges _
          apply bind_ne_error (fetch_ne_outOfTurns _ _)
          intro _ _
          simp [pure, Except.pure]
        · simp [pure, Except.pure]
    · apply bind_ne_error (getStaticRefCount_ne_outOfTurns _ _ _)
      intro refCount _
      split
      · simp [pure, Except.pure]
      · split
        · simp [pure, Except.pure]
        · split <;> simp [pure, Except.pure]

theorem detectUnvisitedNode_ne_outOfTurns (nodeView : MutableNodeView) :
    search.detectUnvisitedNode intelCpuOnly nodesToPreserve nodeView ≠ .error outOfTurns := by
  apply bind_ne_error (fetch_ne_outOfTurns _ _)
  intro info _
  split
  · simp [pure, Except.pure]
  · apply bind_ne_error (fetch_ne_outOfTurns _ _)
    intro stored _
    apply bind_ne_error
    · unfold getCandidateForwardPort
      split
      · simp
      · split
        · split
          · simp
          · apply bind_ne_error (attrAt_ne_outOfTurns _ _)
            intro fusedOps _
            split <;> simp [pure, Except.pure]
        · simp
    · intro ports _
      apply foldlM_ne_error (fun _ => True) trivial _ fun _ _ _ _ _ _ => trivial
      intro before p _ _
      apply bind_ne_error (fetch_ne_outOfTurns _ _)
      intro own _
      apply bind_ne_error (targetOf_ne_outOfTurns _ _ _)
      intro target _
      apply bind_ne_error (fetch_ne_outOfTurns _ _)
      intro targetDef _
      split
      · simp [pure, Except.pure]
      · split
        · simp [pure, Except.pure]
        · exact checkDependence_ne_outOfTurns _ _

theorem inplaceInference_ne_outOfTurns (turns : Nat) : ∀ {search : Search} {index : Nat}, unvisited search < turns →
    Search.inplaceInference intelCpuOnly nodesToPreserve turns search index ≠ .error outOfTurns := by
  induction turns with
  | zero =>
    intro search index enough
    exact absurd enough (Nat.not_lt_zero _)
  | succ turns ih =>
    intro search index enough
    unfold Search.inplaceInference
    apply bind_ne_error (fetch_ne_outOfTurns _ _)
    intro nodeView _
    apply bind_ne_error (fetch_ne_outOfTurns _ _)
    intro info isInfo
    split
    · simp [pure, Except.pure]
    next new =>
      split
      · simp [pure, Except.pure]
      · apply bind_ne_error (detectUnvisitedNode_ne_outOfTurns _)
        intro detected isDetected
        have less := unvisited_detect isInfo (by simpa using new) isDetected
        apply bind_ne_error
        · apply foldlM_ne_error (fun reached => unvisited reached < turns)
          · omega
          · exact fun reached fanin _ few => ih few
          · intro before after fanin _ few stepped
            exact Nat.lt_of_le_of_lt (inplaceInference_unvisited turns stepped) few
        · intro done _
          simp [pure, Except.pure]

/-- The number of turns is never what stops the pass. -/
theorem staticInplaceOpt_ne_outOfTurns {view : MutableGraphView} (indexed : view.Indexed) (deviceName : String) :
    staticInplaceOpt intelCpuOnly view nodesToPreserve deviceName ≠ .error outOfTurns := by
  apply foldlM_ne_error (fun reached => unvisited reached ≤ view.nodes.length ∧
    Progressed intelCpuOnly view nodesToPreserve deviceName reached)
  · refine ⟨Nat.le_trans List.count_le_length ?_, Progressed.start⟩
    simp [visitedFlags, indexed.length]
  · intro before index _ ⟨few, progressed⟩
    apply bind_ne_error (fetch_ne_outOfTurns _ _)
    intro info _
    apply bind_ne_error (fetch_ne_outOfTurns _ _)
    intro stored _
    split
    · simp [pure, Except.pure]
    · split
      · simp [pure, Except.pure]
      · apply inplaceInference_ne_outOfTurns
        rw [progressed.nodes]
        omega
  · intro before after index _ ⟨few, progressed⟩ stepped
    exact ⟨Nat.le_trans (startAt_unvisited stepped) few, startAt_progressed indexed progressed stepped⟩

end Turns

/-! ## Marks -/

structure SafelyMarked (view : MutableGraphView) (nodesToPreserve : List String)
    (marked : List (Nat × Nat)) : Prop where
  safe : ∀ {v p : Nat}, (v, p) ∈ marked → ∃ fanin, SafeToOverwrite view nodesToPreserve v p fanin
  once : ∀ {v p v' p' : Nat} {fanin fanin' : RegularFanin}, (v, p) ∈ marked → (v', p') ∈ marked →
    view.fanin v p = some fanin → view.fanin v' p' = some fanin' →
    fanin'.nodeIndex = fanin.nodeIndex → fanin'.index = fanin.index → (v', p') = (v, p)

/-- Of two readers that may both overwrite an output, each would run before the other. -/
theorem SafelyMarked.of_safe {view : MutableGraphView} {nodesToPreserve : List String}
    {marked : List (Nat × Nat)} (sorted : TopologicallySorted view)
    (safe : ∀ {v p : Nat}, (v, p) ∈ marked → ∃ fanin, SafeToOverwrite view nodesToPreserve v p fanin) :
    SafelyMarked view nodesToPreserve marked := by
  refine ⟨safe, ?_⟩
  intro v p v' p' fanin fanin' mem mem' atFanin atFanin' sameNode samePort
  obtain ⟨read, overwrites⟩ := safe mem
  obtain ⟨read', overwrites'⟩ := safe mem'
  have isFanin : read = fanin := Option.some.inj (overwrites.reads.symm.trans atFanin)
  have isFanin' : read' = fanin' := Option.some.inj (overwrites'.reads.symm.trans atFanin')
  rw [isFanin] at overwrites
  rw [isFanin'] at overwrites'
  by_contra ne
  have before := sorted.lt_of_transGen (overwrites.others atFanin' sameNode samePort ne)
  have after := sorted.lt_of_transGen
    (overwrites'.others atFanin sameNode.symm samePort.symm (Ne.symm ne))
  exact absurd before (Nat.lt_asymm after)

/-- Where the tested output is the one at the port, for every candidate, the marks are safe. -/
theorem staticInplaceOpt_safelyMarked {intelCpuOnly : Bool} {view : MutableGraphView}
    {nodesToPreserve : List String} {deviceName : String} (navigable : view.Navigable)
    (sorted : TopologicallySorted view)
    (lowest : ∀ v p fanin, Candidate intelCpuOnly view nodesToPreserve deviceName v p fanin →
      LowestOutput view v fanin) : staticInplaceOpt intelCpuOnly view nodesToPreserve deviceName ≠ .error outOfTurns ∧
    ∀ search, staticInplaceOpt intelCpuOnly view nodesToPreserve deviceName = .ok search →
      SafelyMarked view nodesToPreserve search.marked := by
  refine ⟨staticInplaceOpt_ne_outOfTurns navigable.indexed deviceName, ?_⟩
  intro search returned
  apply SafelyMarked.of_safe sorted
  intro v p member
  obtain ⟨fanin, candidate, passed⟩ :=
    (staticInplaceOpt_progressed navigable.indexed returned).marked member
  exact ⟨fanin, passed.safe navigable sorted candidate (lowest v p fanin candidate)⟩

theorem topologicallySorted_of_all {view : MutableGraphView} (all : view.nodes.zipIdx.all fun entry =>
      entry.1.regularFanins.all fun fanin => decide (fanin.nodeIndex < entry.2)) : TopologicallySorted view := by
  intro u v ⟨k, fanin, atFanin, isNode⟩
  obtain ⟨node, atNode, atK⟩ := fanin_eq_some.1 atFanin
  have forNode := List.all_eq_true.1 all (node, v) (List.mem_zipIdx_iff_getElem?.2 atNode)
  have below := List.all_eq_true.1 forNode fanin (List.mem_of_getElem? atK)
  rw [← isNode]
  exact of_decide_eq_true below

theorem lowestOutput_of_all {view : MutableGraphView} {p : Nat}
    (all : view.nodes.all fun node => node.regularFanins.all fun fanin => node.regularFanins.all fun other =>
        decide (other.nodeIndex = fanin.nodeIndex → fanin.index ≤ other.index))
    (reads : view.fanin v p = some fanin) : LowestOutput view v fanin := by
  intro k other atOther sameNode
  obtain ⟨node, atNode, atP⟩ := fanin_eq_some.1 reads
  obtain ⟨node', atNode', atK⟩ := fanin_eq_some.1 atOther
  rw [atNode] at atNode'
  cases atNode'
  have forNode := List.all_eq_true.1 all node (List.mem_of_getElem? atNode)
  have forFanin := List.all_eq_true.1 forNode fanin (List.mem_of_getElem? atP)
  have forOther := List.all_eq_true.1 forFanin other (List.mem_of_getElem? atK)
  exact of_decide_eq_true forOther sameNode

def softmaxGraph : GraphDef :=
  [⟨"x", "Relu", "XPU:0", [], ∅⟩, ⟨"softmax", "_ITEXSoftmax", "XPU:0", [⟨"x", .port 0⟩], ∅⟩]

theorem softmaxGraph_marked : ∃ view search, construct softmaxGraph = .ok view ∧
    staticInplaceOpt false view [] "XPU" = .ok search ∧ search.marked = [(1, 0)] ∧
    SafelyMarked view [] search.marked := by
  obtain ⟨view, search, built, returned, marked, sorted, lowest⟩ : ∃ view search, construct softmaxGraph = .ok view ∧
      staticInplaceOpt false view [] "XPU" = .ok search ∧ search.marked = [(1, 0)] ∧
      (view.nodes.zipIdx.all fun entry =>
        entry.1.regularFanins.all fun fanin => decide (fanin.nodeIndex < entry.2)) = true ∧
      (view.nodes.all fun node => node.regularFanins.all fun fanin => node.regularFanins.all fun other =>
        decide (other.nodeIndex = fanin.nodeIndex → fanin.index ≤ other.index)) = true :=
    ⟨_, _, rfl, rfl, rfl, rfl, rfl⟩
  exact ⟨view, search, built, returned, marked, (staticInplaceOpt_safelyMarked (construct_inv built).1.navigable
    (topologicallySorted_of_all sorted)
    (fun _ _ _ candidate => lowestOutput_of_all lowest candidate.reads)).2 search returned⟩

/-- The batch norm reads the second output of the split and then the first. -/
def splitGraph : GraphDef :=
  [⟨"split", "Split", "XPU:0", [], ∅⟩,
    ⟨"norm", "_ITEXFusedBatchNorm", "XPU:0", [⟨"split", .port 1⟩, ⟨"split", .port 0⟩], ∅⟩,
    ⟨"relu", "Relu", "XPU:0", [⟨"split", .port 1⟩], ∅⟩]

/-- The norm is marked to overwrite the second output, which `relu` is still to read. -/
theorem splitGraph_overwritten : ∃ view search, construct splitGraph = .ok view ∧
    TopologicallySorted view ∧ staticInplaceOpt false view [] "XPU" = .ok search ∧
    search.marked = [(1, 0)] ∧ ¬ SafelyMarked view [] search.marked := by
  obtain ⟨view, search, fanin, built, returned, marked, all, atFanin, atOther⟩ : ∃ view search fanin,
      construct splitGraph = .ok view ∧ staticInplaceOpt false view [] "XPU" = .ok search ∧ search.marked = [(1, 0)] ∧
      (view.nodes.zipIdx.all fun entry =>
        entry.1.regularFanins.all fun fanin => decide (fanin.nodeIndex < entry.2)) = true ∧
      view.fanin 1 0 = some fanin ∧ ∃ other, view.fanin 2 0 = some other ∧ other.nodeIndex = fanin.nodeIndex ∧
        other.index = fanin.index := ⟨_, _, _, rfl, rfl, rfl, rfl, rfl, _, rfl, rfl, rfl⟩
  obtain ⟨other, atOther, sameNode, samePort⟩ := atOther
  have sorted : TopologicallySorted view := topologicallySorted_of_all all
  refine ⟨view, search, built, sorted, returned, marked, fun safely => ?_⟩
  obtain ⟨read, overwrites⟩ := safely.safe (show (1, 0) ∈ search.marked by simp [marked])
  have isFanin : read = fanin := Option.some.inj (overwrites.reads.symm.trans atFanin)
  rw [isFanin] at overwrites
  have before := sorted.lt_of_transGen (overwrites.others atOther sameNode samePort (by decide))
  exact absurd before (by decide)

end Itex.MemoryOpt
