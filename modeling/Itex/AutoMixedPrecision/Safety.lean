import Itex.AutoMixedPrecision.Colours

/-!
Contract: what the paint of `Optimize` never does.

Owns: disjointness of the two colours at every point of the run, and the fate of
types on a path that starts at a denylist operator.
-/

namespace Itex.AutoMixedPrecision

open Itex.Lib Itex.Lib.DepthFirst Itex.Graph

variable {allow seed : Finset Nat} {first j i last : Nat} {middle : List Nat} {paint : Impl.Paint}
  {related : Nat → Nat → Prop}

/-! ## The two colours -/

theorem mixedPrecisionLists_default (mode : Mode) : mixedPrecisionLists mode {} = builtinLists mode := rfl

theorem isTensorListOp_of_mem_builtin_allow {mode : Mode} {op : String}
    (listed : op ∈ (builtinLists mode).allow) : isTensorListOp op = false := by
  have common : ∀ op ∈ insertAll allowListOps ["_ITEXFusedAddV2WithSoftmax"],
      isTensorListOp op = false := by decide +kernel
  apply common
  rw [mem_insertAll]
  cases mode with
  | gpuFloat16 => exact mem_insertAll.1 listed
  | gpuBfloat16 => exact mem_insertAll.1 listed
  | cpuFloat16 => exact .inl listed
  | cpuBfloat16 => exact .inl listed

namespace Prepared

variable {settings : Config} {graph : GraphDef} {prepared : Prepared}

theorem isTensorListOp_of_seed (returned : prepare settings graph = .ok prepared)
    (seeded : i ∈ prepared.denySeed) : isTensorListOp (prepared.impl.itemOp i) = true := by
  obtain ⟨base, added, built, implicit, rfl⟩ := prepare_spec returned
  have wf := built.wired.mirrors.wellFormed
  obtain ⟨r, root, -⟩ := ((Impl.clusters_spec wf).2.2 i).1 seeded
  exact Impl.tensorListFloat32Index_item wf root.element

theorem deny_cases (ready : prepared.impl.Ready) (denied : i ∈ prepared.afterLists.deny) :
    i ∈ prepared.afterPass2.deny ∨ isTensorListOp (prepared.impl.itemOp i) = true := by
  rcases Impl.forceAll_deny ready.wellFormed denied with denied | isList
  · exact Impl.forceAll_deny ready.wellFormed denied
  · exact .inr isList

theorem deny_subset (prepared : Prepared) : prepared.afterPass2.deny ⊆ prepared.afterLists.deny :=
  (Impl.deny_subset_forceAll prepared.impl prepared.clusters prepared.afterPass2).trans
    (Impl.deny_subset_forceAll prepared.impl prepared.clusters prepared.afterPass6)

/-- The lists that the run uses keep tensor-list operators off the allow list. -/
structure PlainLists (impl : Impl) : Prop where
  forcible : impl.lists.Forcible
  allow : ∀ op ∈ impl.lists.allow, isTensorListOp op = false

theorem plainLists_of_builtin (builtin : settings.listUpdates = {})
    (returned : prepare settings graph = .ok prepared) : PlainLists prepared.impl := by
  obtain ⟨base, added, built, implicit, rfl⟩ := prepare_spec returned
  have lists : base.lists = builtinLists settings.mode := by
    rw [built.lists, builtin, mixedPrecisionLists_default]
  show PlainLists (base.withEdges added)
  constructor
  · show base.lists.Forcible
    rw [lists]
    exact builtinLists_forcible settings.mode
  · show ∀ op ∈ base.lists.allow, isTensorListOp op = false
    rw [lists]
    exact fun op listed => isTensorListOp_of_mem_builtin_allow listed

theorem unlisted_of_denied (returned : prepare settings graph = .ok prepared)
    (plain : PlainLists prepared.impl) (denied : i ∈ prepared.afterPass2.deny) :
    prepared.impl.itemOp i ∉ prepared.impl.lists.allow := by
  intro listed
  have notList := plain.allow _ listed
  have apart := plain.forcible.disjoint
  by_cases inSeed : i ∈ prepared.denySeed
  · rw [isTensorListOp_of_seed returned inSeed] at notList
    cases notList
  · have ready := ready_of_prepare returned
    rcases Impl.op_of_denied ready.wellFormed denied inSeed with deny | infer | clear
    · exact apart.allow_deny _ listed deny
    · exact apart.allow_infer _ listed infer
    · exact apart.allow_clear _ listed clear

theorem disjoint_of_guarded (guarded : prepared.impl.Guarded paint)
    (unlisted : ∀ i ∈ paint.deny, prepared.impl.itemOp i ∉ prepared.impl.lists.allow) :
    Disjoint paint.allow paint.deny := by
  rw [Finset.disjoint_left]
  intro i painted denied
  exact guarded i denied (unlisted i denied) painted

theorem denied_loop_or_cast (returned : prepare settings graph = .ok prepared)
    (denied : i ∈ prepared.afterLists.deny) (notList : isTensorListOp (prepared.impl.itemOp i) = false) :
    i ∈ prepared.afterPass2.deny ∧ i ∉ prepared.denySeed := by
  constructor
  · refine (deny_cases (ready_of_prepare returned) denied).resolve_right fun isList => ?_
    rw [notList] at isList
    cases isList
  · intro inSeed
    rw [isTensorListOp_of_seed returned inSeed] at notList
    cases notList

section Points

variable (returned : prepare settings graph = .ok prepared) (plain : PlainLists prepared.impl)
include returned plain

theorem unlisted_forceAll (clusters : List (List Nat))
    (unlisted : ∀ i ∈ paint.deny, prepared.impl.itemOp i ∉ prepared.impl.lists.allow) :
    ∀ i ∈ (prepared.forceClusters clusters paint).deny, prepared.impl.itemOp i ∉ prepared.impl.lists.allow := by
  intro i denied listed
  rcases Impl.forceAll_deny (ready_of_prepare returned).wellFormed denied with denied | isList
  · exact unlisted i denied listed
  · rw [plain.allow _ listed] at isList
    cases isList

theorem unlisted_afterPass3 : ∀ i ∈ prepared.afterPass3.deny, prepared.impl.itemOp i ∉ prepared.impl.lists.allow :=
  unlisted_forceAll returned plain prepared.clusters
    fun _ denied => unlisted_of_denied returned plain denied

end Points

/-- The two colours have no type in common, at every point of the run after pass 2. -/
theorem paint_disjoint (ops : Impl.LoopOps settings.registry)
    (builtin : settings.listUpdates = {}) (returned : prepare settings graph = .ok prepared)
    {point : Point} {paint : Impl.Paint} (reached : prepared.paintAt point = .ok paint) :
    Disjoint paint.allow paint.deny := by
  have ready := ready_of_prepare returned
  have plain := plainLists_of_builtin builtin returned
  have unlisted2 := fun i (denied : i ∈ prepared.afterPass2.deny) =>
    unlisted_of_denied returned plain denied
  have unlisted3 := unlisted_afterPass3 returned plain
  have listsDisjoint := disjoint_of_guarded (guarded_afterLists ready.wellFormed)
    (unlisted_forceAll returned plain prepared.clusters unlisted3)
  -- Before the loop edges the guard is enough; after that, a denied `NextIteration`
  -- hands its colour on and a `Cast` is never denied.
  have late : (∃ nodes, point = .recurrent nodes) ∨ (∃ nodes, point = .casts nodes) →
      paint.deny = prepared.afterLists.deny → Disjoint paint.allow paint.deny := by
    intro isLate sameDeny
    rw [sameDeny, Finset.disjoint_right]
    refine apart_of_paintAt ready ?_ ?_ ?_ (Finset.disjoint_right.1 listsDisjoint) isLate reached
    · obtain ⟨base, added, built, implicit, rfl⟩ := prepare_spec returned
      rw [show (base.withEdges added).config = settings from built.config]
      exact ops
    · intro i denied isLoop
      obtain ⟨denied2, fresh⟩ := denied_loop_or_cast returned denied
        (by rw [isLoop]; decide)
      have clear : prepared.impl.itemOp i ∈ prepared.impl.lists.clear :=
        isLoop ▸ plain.forcible.nextIteration
      have apart := plain.forcible.disjoint
      obtain ⟨j, edge, denied'⟩ := Impl.denied_onward ready.wellFormed denied2 fresh
        (fun deny => apart.deny_clear _ deny clear) (fun infer => apart.infer_clear _ infer clear)
      exact ⟨j, edge, deny_subset prepared denied'⟩
    · intro i denied isCast
      obtain ⟨denied2, fresh⟩ := denied_loop_or_cast returned denied
        (by rw [isCast]; decide)
      have unlisted := plain.forcible.cast
      rw [← isCast] at unlisted
      rcases Impl.op_of_denied ready.wellFormed denied2 fresh with deny | infer | clear
      · exact absurd deny unlisted.1
      · exact absurd infer unlisted.2.1
      · exact absurd clear unlisted.2.2
  cases point with
  | pass2 =>
    cases reached
    exact disjoint_of_guarded guarded_afterPass2 unlisted2
  | forced clusters =>
    cases reached
    exact disjoint_of_guarded (guarded_afterPass2.forceAll _)
      (unlisted_forceAll returned plain _ unlisted2)
  | pass3 =>
    cases reached
    exact disjoint_of_guarded (guarded_afterPass3 ready.wellFormed) unlisted3
  | pass4 =>
    cases reached
    exact disjoint_of_guarded (guarded_afterPass4 ready.wellFormed) unlisted3
  | pass5 =>
    cases reached
    exact disjoint_of_guarded (guarded_afterPass5 ready.wellFormed) unlisted3
  | pass6 =>
    cases reached
    exact disjoint_of_guarded (guarded_afterPass6 ready.wellFormed) unlisted3
  | forcedAgain clusters =>
    cases reached
    exact disjoint_of_guarded ((guarded_afterPass6 ready.wellFormed).forceAll _)
      (unlisted_forceAll returned plain _ unlisted3)
  | recurrent nodes =>
    apply late (.inl ⟨nodes, rfl⟩)
    obtain ⟨allow, -, same⟩ := bind_ok.1 reached
    cases same
    rfl
  | casts nodes =>
    apply late (.inr ⟨nodes, rfl⟩)
    obtain ⟨looped, -, reached⟩ := bind_ok.1 reached
    obtain ⟨allow, -, same⟩ := bind_ok.1 reached
    cases same
    rfl

end Prepared

/-! ### A loop around a matrix product -/

/-- Operators with one type attribute `T`. -/
def unaryOpDef : OpDef := ⟨[{ typeAttr := "T" }], [{ typeAttr := "T" }], [⟨"T", .type, []⟩]⟩

def binaryOpDef : OpDef :=
  ⟨[{ typeAttr := "T" }, { typeAttr := "T" }], [{ typeAttr := "T" }], [⟨"T", .type, []⟩]⟩

def placeholderOpDef : OpDef := ⟨[], [{ typeAttr := "dtype" }], [⟨"dtype", .type, []⟩]⟩

def castOpDef : OpDef :=
  ⟨[{ typeAttr := "SrcT" }], [{ typeAttr := "DstT" }],
    [⟨"SrcT", .type, []⟩, ⟨"DstT", .type, []⟩, ⟨"Truncate", .other, []⟩]⟩

def pushBackOpDef : OpDef :=
  ⟨[{ type := .variant }, { typeAttr := "element_dtype" }], [{ type := .variant }], [⟨"element_dtype", .type, []⟩]⟩

def popBackOpDef : OpDef :=
  ⟨[{ type := .variant }, { type := .int32 }],
    [{ type := .variant }, { typeAttr := "element_dtype" }], [⟨"element_dtype", .type, []⟩]⟩

def emptyListOpDef : OpDef :=
  ⟨[{ typeAttr := "shape_type" }, { type := .int32 }], [{ type := .variant }],
    [⟨"element_dtype", .type, []⟩, ⟨"shape_type", .type, [.int32, .int64]⟩]⟩

/-- Some operators of TensorFlow. -/
def sampleOpDefs : List (String × OpDef) :=
  [("Placeholder", placeholderOpDef), ("MatMul", binaryOpDef), ("AddV2", binaryOpDef),
    ("Exp", unaryOpDef), ("NextIteration", Impl.nextIterationOpDef), ("Merge", Impl.mergeOpDef),
    ("Cast", castOpDef), ("EmptyTensorList", emptyListOpDef),
    ("TensorListPushBack", pushBackOpDef), ("TensorListPopBack", popBackOpDef)]

def sampleRegistry : Registry where
  lookUpOpDef op :=
    match sampleOpDefs.lookup op with
    | none => .error (.status .other ("Op type not registered '" ++ op ++ "'"))
    | some opDef => .ok opDef
  isFunction _ := false

def insertionOrders : HashOrders where
  typeAttrs _ _ list := list
  typeAttrs_perm _ _ list := .refl list
  outputPorts _ _ list := list
  outputPorts_perm _ _ list := .refl list
  fanout _ list := list
  fanout_perm _ list := .refl list

/-- A graph on one device, with the built-in lists and every kernel. -/
def sampleSettings (nodesToPreserve : List String) : Config where
  mode := .gpuFloat16
  nodesToPreserve := nodesToPreserve
  registry := sampleRegistry
  isKernelRegisteredForNode _ := true
  splitDeviceName device := some device
  listUpdates := {}
  unsafeForceAll := false
  orders := insertionOrders

def sampleNode (name op : String) (input : List (String × Nat))
    (attr : List (String × AttrValue)) : NodeDef where
  name := name
  op := op
  device := "XPU"
  input := input.map fun tensor => ⟨tensor.1, .port tensor.2⟩
  attr := attr.foldl (fun attr entry => attr.insert entry.1 entry.2) ∅

def floatAttr (name : String) : List (String × AttrValue) := [(name, .type .float)]

def loopGraph : GraphDef :=
  [sampleNode "x" "Placeholder" [] (floatAttr "dtype"),
    sampleNode "m" "Merge" [("x", 0), ("n", 0)] [("T", .type .float), ("N", .i 2)],
    sampleNode "a" "MatMul" [("m", 0), ("m", 0)] (floatAttr "T"),
    sampleNode "n" "NextIteration" [("a", 0)] (floatAttr "T")]

theorem prepare_of_builtin {settings : Config} {graph : GraphDef}
    (builtin : settings.listUpdates = {}) (off : settings.unsafeForceAll = false) :
    prepare settings graph = (do
      let view ← MutableGraphView.construct graph
      let impl ← assemble settings view
      impl.findTensorLists) := by
  unfold prepare buildImpl
  rw [builtin, mixedPrecisionLists_default, validateLists_builtinLists]
  simp only [require, off, if_true, bind_assoc]
  rfl

theorem ok_of_toBool {α : Type} {x : Except Failure α} (isOk : x.toBool = true) : ∃ a, x = .ok a := by
  cases x with
  | error failure => cases isOk
  | ok a => exact ⟨a, rfl⟩

theorem paint_disjoint_in_loop : ∃ prepared paint, prepare (sampleSettings []) loopGraph = .ok prepared ∧
    prepared.paintAt (.casts 4) = .ok paint ∧ Disjoint paint.allow paint.deny := by
  have isOk : (prepare (sampleSettings []) loopGraph >>= fun prepared =>
      prepared.paintAt (.casts 4)).toBool = true := by
    rw [prepare_of_builtin rfl rfl]
    decide +kernel
  obtain ⟨paint, returned⟩ := ok_of_toBool isOk
  obtain ⟨prepared, isPrepared, reached⟩ := bind_ok.1 returned
  exact ⟨prepared, paint, isPrepared, reached, Prepared.paint_disjoint ⟨rfl, rfl⟩ rfl isPrepared reached⟩

/-! ## Paths from denylist operators -/

namespace Impl

variable {impl : Impl}

/-- A forward path from a denylist operator, through clear and infer operators, to a
deny or infer operator. -/
structure DangerousPath (impl : Impl) (first : Nat) (middle : List Nat) (last : Nat) : Prop where
  starts : impl.itemOp first ∈ impl.lists.deny
  through : ∀ i ∈ middle, impl.itemOp i ∈ impl.lists.clear ∨ impl.itemOp i ∈ impl.lists.infer
  ends : impl.itemOp last ∈ impl.lists.deny ∨ impl.itemOp last ∈ impl.lists.infer
  edges : (first :: (middle ++ [last])).IsChain fun i j => j ∈ impl.next .followOutputs i

instance (impl : Impl) (first : Nat) (middle : List Nat) (last : Nat) :
    Decidable (impl.DangerousPath first middle last) :=
  decidable_of_iff
    (impl.itemOp first ∈ impl.lists.deny ∧
      (∀ i ∈ middle, impl.itemOp i ∈ impl.lists.clear ∨ impl.itemOp i ∈ impl.lists.infer) ∧
      (impl.itemOp last ∈ impl.lists.deny ∨ impl.itemOp last ∈ impl.lists.infer) ∧
      (first :: (middle ++ [last])).IsChain fun i j => j ∈ impl.next .followOutputs i)
    ⟨fun ⟨starts, through, ends, edges⟩ => ⟨starts, through, ends, edges⟩,
      fun path => ⟨path.starts, path.through, path.ends, path.edges⟩⟩

theorem exists_successor (chain : (first :: (middle ++ [last])).IsChain related) :
    ∀ i ∈ first :: middle, ∃ j ∈ middle ++ [last], related i j := fun _ mem =>
  exists_of_forall₂_of_mem_left (List.isChain_cons_append_singleton_iff_forall₂.1 chain) mem

theorem exists_predecessor (chain : (first :: (middle ++ [last])).IsChain related) :
    ∀ j ∈ middle ++ [last], ∃ i ∈ first :: middle, related i j := fun _ mem =>
  exists_of_forall₂_of_mem_right (List.isChain_cons_append_singleton_iff_forall₂.1 chain) mem

section Paths

variable (wf : impl.graphTypeView.WellFormed)
include wf

theorem bound_of_edge (edge : j ∈ impl.next .followOutputs i) : i < impl.numTypes ∧ j < impl.numTypes :=
  wf.inRange _ (GraphTypeTopologyView.mem_getFanout.1 edge)

theorem upstream_of_path (ends : impl.itemOp last ∈ impl.lists.deny ∨ impl.itemOp last ∈ impl.lists.infer) :
    ∀ {first : Nat} {middle : List Nat},
      (∀ i ∈ middle, impl.itemOp i ∈ impl.lists.clear ∨ impl.itemOp i ∈ impl.lists.infer) →
      (first :: (middle ++ [last])).IsChain (fun i j => j ∈ impl.next .followOutputs i) →
      ∀ i ∈ middle ++ [last], i ∈ impl.upstreamOfDenyOrInfer
  | first, [], _, chain, i, mem => by
      rw [List.nil_append, List.mem_singleton] at mem
      rw [mem, mem_upstreamOfDenyOrInfer wf]
      have edge := (List.isChain_cons_cons.1 chain).1
      exact .root ⟨(bound_of_edge wf edge).2, ends⟩
  | first, second :: rest, through, chain, i, mem => by
      obtain ⟨edge, chain⟩ := List.isChain_cons_cons.1 chain
      have later := upstream_of_path ends
        (fun k inRest => through k (List.mem_cons_of_mem _ inRest)) chain
      rcases List.mem_cons.1 mem with rfl | mem
      · rw [mem_upstreamOfDenyOrInfer wf]
        rcases through i (by simp) with clear | infer
        · obtain ⟨j, next, onward⟩ := exists_successor chain i (by simp)
          refine .step ((mem_upstreamOfDenyOrInfer wf j).1 (later j next)) ?_ clear
          exact GraphTypeTopologyView.mem_getFanin.2 (GraphTypeTopologyView.mem_getFanout.1 onward)
        · exact .root ⟨(bound_of_edge wf edge).2, .inr infer⟩
      · exact later i mem

/-- Pass 2 denies the whole of a path, unless a type that was denied before it
stands in the way. -/
theorem denied_of_chain : ∀ {first : Nat} {middle : List Nat},
      Reach (impl.next .followOutputs) (fun k => k ∈ impl.upstreamOfDenyOrInfer ∧ k ∉ seed)
        (fun r => r < impl.numTypes ∧ impl.itemOp r ∈ impl.lists.deny ∧ r ∉ seed) first →
      (∀ i ∈ middle ++ [last], i ∈ impl.upstreamOfDenyOrInfer) → (∀ i ∈ middle, i ∉ seed) →
      (first :: (middle ++ [last])).IsChain (fun i j => j ∈ impl.next .followOutputs i) →
      ∀ i ∈ first :: (middle ++ [last]), i ∈ impl.propagateDenyFwdThroughClearAndInfer seed
  | first, [], reached, upstream, _, chain, i, mem => by
      rw [mem_propagateDeny wf]
      rcases List.mem_cons.1 mem with rfl | mem
      · exact .inr reached
      · by_cases inSeed : i ∈ seed
        · exact .inl inSeed
        · have edge := (List.isChain_cons_cons.1 chain).1
          rw [List.nil_append, List.mem_singleton] at mem
          rw [← mem] at edge
          exact .inr (.step reached edge ⟨upstream i (by simp [mem]), inSeed⟩)
  | first, second :: rest, reached, upstream, fresh, chain, i, mem => by
      obtain ⟨edge, chain⟩ := List.isChain_cons_cons.1 chain
      rcases List.mem_cons.1 mem with rfl | mem
      · exact (mem_propagateDeny wf seed i).2 (.inr reached)
      · have onward := Reach.step reached edge
          ⟨upstream second (by simp), fresh second (by simp)⟩
        exact denied_of_chain onward (fun k later => upstream k (List.mem_cons_of_mem _ later))
          (fun k later => fresh k (List.mem_cons_of_mem _ later)) chain i mem

theorem DangerousPath.denied
    (path : impl.DangerousPath first middle last) (fresh : ∀ i ∈ first :: middle, i ∉ seed) :
    ∀ i ∈ first :: (middle ++ [last]), i ∈ impl.propagateDenyFwdThroughClearAndInfer seed := by
  obtain ⟨second, -, edge⟩ := exists_successor path.edges first (by simp)
  apply denied_of_chain wf _ (upstream_of_path wf path.ends path.through path.edges)
    (fun i mem => fresh i (List.mem_cons_of_mem _ mem)) path.edges
  exact .root ⟨(bound_of_edge wf edge).1, path.starts, fresh first (by simp)⟩

end Paths

theorem DangerousPath.listed
    (path : impl.DangerousPath first middle last) (mem : i ∈ first :: (middle ++ [last])) :
    impl.itemOp i ∈ impl.lists.deny ∨ impl.itemOp i ∈ impl.lists.infer ∨ impl.itemOp i ∈ impl.lists.clear := by
  rcases List.mem_cons.1 mem with rfl | mem
  · exact .inl path.starts
  · rcases List.mem_append.1 mem with mem | mem
    · exact .inr (path.through i mem).symm
    · rw [List.mem_singleton.1 mem]
      exact path.ends.imp_right .inl

end Impl

/-- Loop and cast operators are on no list that denies them. -/
structure OpLists.SparesLoopsAndCasts (lists : OpLists) : Prop where
  nextIteration : "NextIteration" ∉ lists.deny ∧ "NextIteration" ∉ lists.infer
  cast : "Cast" ∉ lists.deny

namespace Prepared

variable {settings : Config} {graph : GraphDef} {prepared : Prepared}

theorem paintAt_casts_all (painted : prepared.finalAllow = .ok allow) :
    prepared.paintAt (.casts prepared.impl.graph.length) = .ok ⟨allow, prepared.afterLists.deny⟩ := by
  obtain ⟨looped, loopedOk, absorbed⟩ := bind_ok.1 painted
  have whole : (List.range prepared.impl.graph.length).take prepared.impl.graph.length =
      List.range prepared.impl.graph.length := by
    rw [List.take_of_length_le (by simp)]
  simp only [paintAt, loopedOk, whole]
  unfold Impl.makeCastsAllowIfAllOutputsAllow at absorbed
  simp only [bind, Except.bind, absorbed]
  rfl

theorem lists_eq (returned : prepare settings graph = .ok prepared) :
    prepared.impl.lists = mixedPrecisionLists settings.mode settings.listUpdates ∧
      prepared.impl.lists.Disjoint ∧ prepared.impl.config = settings := by
  obtain ⟨base, added, built, -, rfl⟩ := prepare_spec returned
  exact ⟨built.lists, built.disjoint, built.config⟩

/-- Types that pass 2 denies stay unpainted to the end, if loops hand them on. -/
theorem unpainted_of_denied (ops : Impl.LoopOps settings.registry)
    (returned : prepare settings graph = .ok prepared) (apart : Nat → Prop)
    (denied : ∀ i, apart i → i ∈ prepared.afterPass2.deny)
    (listed : ∀ i, apart i → prepared.impl.itemOp i ∈ prepared.impl.lists.deny ∨
      prepared.impl.itemOp i ∈ prepared.impl.lists.infer ∨ prepared.impl.itemOp i ∈ prepared.impl.lists.clear)
    (onward : ∀ i, apart i → prepared.impl.itemOp i = "NextIteration" →
      ∃ j ∈ prepared.impl.next .followOutputs i, apart j) (noCast : ∀ i, apart i → prepared.impl.itemOp i = "Cast" →
      (prepared.impl.item i).typeAttr ≠ .single "DstT")
    (painted : prepared.finalAllow = .ok allow) : ∀ i, apart i → i ∉ allow := by
  have ready := ready_of_prepare returned
  obtain ⟨-, disjoint, sameConfig⟩ := lists_eq returned
  refine apart_of_paintAt ready (sameConfig ▸ ops) onward noCast ?_ (.inr ⟨_, rfl⟩)
    (paintAt_casts_all painted)
  intro i isApart
  apply guarded_afterLists ready.wellFormed i (deny_subset prepared (denied i isApart))
  intro inAllow
  rcases listed i isApart with deny | infer | clear
  · exact disjoint.allow_deny _ inAllow deny
  · exact disjoint.allow_infer _ inAllow infer
  · exact disjoint.allow_clear _ inAllow clear

theorem ne_dstT_of_edge (castOp : settings.registry.lookUpOpDef "Cast" = .ok castOpDef)
    (returned : prepare settings graph = .ok prepared)
    (edge : j ∈ prepared.impl.next .followOutputs i) (isCast : prepared.impl.itemOp j = "Cast") :
    (prepared.impl.item j).typeAttr ≠ .single "DstT" := by
  have ready := ready_of_prepare returned
  rcases ready.edge i j (GraphTypeTopologyView.mem_getFanout.1 edge) with
    ⟨s, p, d, k, ts, td, portEdge, -, atDst⟩ | ⟨-, isList⟩
  · have isItem := Impl.item_eq_of_getElem? atDst
    obtain ⟨-, dst, -, dstNode, -⟩ := portEdge.input
    obtain ⟨opDef, registered, described⟩ := ready.described d dst dstNode
    have isOp : dst.op = "Cast" := by
      rw [Impl.itemOp, isItem, Impl.opOf, Impl.nodeDef_eq dstNode] at isCast
      exact isCast
    rw [isOp, (lists_eq returned).2.2, castOp] at registered
    cases registered
    obtain ⟨argDef, isArg, index, isType⟩ :=
      described.inputArg (List.mem_of_getElem? portEdge.dstType)
    rw [List.mem_singleton.1 isArg] at isType
    rw [isItem, isType]
    show TypeAttrId.single "SrcT" ≠ .single "DstT"
    decide
  · rw [isCast] at isList
    exact absurd isList (by decide)

/-- A denylist operator is never painted, nor is a path from one to a deny or infer
operator, unless the path goes through the element type of an unsafe tensor list
before its end. -/
theorem dangerous_unpainted (ops : Impl.LoopOps settings.registry)
    (castOp : settings.registry.lookUpOpDef "Cast" = .ok castOpDef)
    (spares : (mixedPrecisionLists settings.mode settings.listUpdates).SparesLoopsAndCasts)
    (returned : prepare settings graph = .ok prepared) {allow : Finset Nat}
    (painted : prepared.finalAllow = .ok allow) :
    (∀ i < prepared.impl.numTypes, prepared.impl.itemOp i ∈ prepared.impl.lists.deny → i ∉ allow) ∧
    ∀ first middle last, prepared.impl.DangerousPath first middle last →
      (∀ i ∈ first :: middle, i ∉ prepared.denySeed) → ∀ i ∈ first :: (middle ++ [last]), i ∉ allow := by
  have ready := ready_of_prepare returned
  obtain ⟨sameLists, -, -⟩ := lists_eq returned
  rw [← sameLists] at spares
  constructor
  · intro i bound denied
    refine unpainted_of_denied ops returned
      (fun i => i < prepared.impl.numTypes ∧ prepared.impl.itemOp i ∈ prepared.impl.lists.deny)
      ?_ (fun _ isApart => .inl isApart.2) ?_ ?_ painted i ⟨bound, denied⟩
    · rintro k ⟨inRange, isDenied⟩
      rw [afterPass2, Impl.mem_propagateDeny ready.wellFormed]
      by_cases inSeed : k ∈ prepared.denySeed
      · exact .inl inSeed
      · exact .inr (.root ⟨inRange, isDenied, inSeed⟩)
    · rintro k ⟨-, isDenied⟩ isLoop
      exact absurd (isLoop ▸ isDenied) spares.nextIteration.1
    · rintro k ⟨-, isDenied⟩ isCast
      exact absurd (isCast ▸ isDenied) spares.cast
  · intro first middle last path fresh
    refine unpainted_of_denied ops returned _ (path.denied ready.wellFormed fresh)
      (fun i member => path.listed member) ?_ ?_ painted
    · -- Neither end of the path is a `NextIteration`, so there is a next type on it.
      intro i member isLoop
      have inner : i ∈ first :: middle := by
        rw [← List.cons_append, List.mem_append, List.mem_singleton] at member
        refine member.resolve_right fun isLast => ?_
        have ends := path.ends
        rw [← isLast, isLoop] at ends
        exact ends.elim spares.nextIteration.1 spares.nextIteration.2
      obtain ⟨j, later, edge⟩ := Impl.exists_successor path.edges i inner
      exact ⟨j, edge, List.mem_cons_of_mem _ later⟩
    · intro i member isCast
      rcases List.mem_cons.1 member with rfl | member
      · exact absurd (isCast ▸ path.starts) spares.cast
      · obtain ⟨j, -, edge⟩ := Impl.exists_predecessor path.edges i member
        exact ne_dstT_of_edge castOp returned edge isCast

end Prepared

/-- A sum of a matrix product and an exponential. -/
def sumGraph : GraphDef :=
  [sampleNode "x" "Placeholder" [] (floatAttr "dtype"),
    sampleNode "product" "MatMul" [("x", 0), ("x", 0)] (floatAttr "T"),
    sampleNode "exp" "Exp" [("x", 0)] (floatAttr "T"),
    sampleNode "sum" "AddV2" [("exp", 0), ("product", 0)] (floatAttr "T")]

/-- The same sum, where the exponential goes through a list that comes from outside
the graph. -/
def unsafeListGraph : GraphDef :=
  [sampleNode "x" "Placeholder" [] (floatAttr "dtype"),
    sampleNode "list" "Placeholder" [] [("dtype", .type .variant)],
    sampleNode "shape" "Placeholder" [] [("dtype", .type .int32)],
    sampleNode "product" "MatMul" [("x", 0), ("x", 0)] (floatAttr "T"),
    sampleNode "exp" "Exp" [("x", 0)] (floatAttr "T"),
    sampleNode "push" "TensorListPushBack" [("list", 0), ("exp", 0)] (floatAttr "element_dtype"),
    sampleNode "pop" "TensorListPopBack" [("push", 0), ("shape", 0)] (floatAttr "element_dtype"),
    sampleNode "sum" "AddV2" [("pop", 1), ("product", 0)] (floatAttr "T"),
    sampleNode "result" "MatMul" [("sum", 0), ("x", 0)] (floatAttr "T")]

theorem run_of_test (settings : Config) (graph : GraphDef) (builtin : settings.listUpdates = {})
    (off : settings.unsafeForceAll = false) (test : Prepared → Finset Nat → Prop)
    [∀ prepared allow, Decidable (test prepared allow)]
    (passes : (do
      let view ← MutableGraphView.construct graph
      let impl ← assemble settings view
      let prepared ← impl.findTensorLists
      let allow ← prepared.finalAllow
      require (test prepared allow) (.crash "")).toBool = true) :
    ∃ prepared allow, prepare settings graph = .ok prepared ∧
      prepared.finalAllow = .ok allow ∧ test prepared allow := by
  obtain ⟨_, ran⟩ := ok_of_toBool passes
  obtain ⟨view, viewOk, ran⟩ := bind_ok.1 ran
  obtain ⟨impl, implOk, ran⟩ := bind_ok.1 ran
  obtain ⟨prepared, preparedOk, ran⟩ := bind_ok.1 ran
  obtain ⟨allow, painted, tested⟩ := bind_ok.1 ran
  refine ⟨prepared, allow, ?_, painted, require_eq_ok.1 tested⟩
  rw [prepare_of_builtin builtin off, viewOk]
  show (assemble settings view >>= fun impl => impl.findTensorLists) = .ok prepared
  rw [implOk]
  exact preparedOk

theorem exponential_sum_unpainted : ∃ prepared allow,
    prepare (sampleSettings []) sumGraph = .ok prepared ∧ prepared.finalAllow = .ok allow ∧
    prepared.impl.DangerousPath 2 [] 3 ∧ 1 ∈ allow ∧ 3 ∉ allow := by
  obtain ⟨prepared, allow, isPrepared, painted, path, fresh, product⟩ := run_of_test
    (sampleSettings []) sumGraph rfl rfl
    (fun prepared allow => prepared.impl.DangerousPath 2 [] 3 ∧ 2 ∉ prepared.denySeed ∧ 1 ∈ allow) (by decide +kernel)
  have spares : (mixedPrecisionLists (sampleSettings []).mode
      (sampleSettings []).listUpdates).SparesLoopsAndCasts := by
    have forcible := builtinLists_forcible .gpuFloat16
    refine ⟨⟨?_, ?_⟩, forcible.cast.1⟩
    · exact fun deny => forcible.disjoint.deny_clear _ deny forcible.nextIteration
    · exact fun infer => forcible.disjoint.infer_clear _ infer forcible.nextIteration
  refine ⟨prepared, allow, isPrepared, painted, path, product, ?_⟩
  exact (Prepared.dangerous_unpainted ⟨rfl, rfl⟩ rfl spares isPrepared painted).2 2 [] 3 path
    (by simpa using fresh) 3 (by simp)

/-- The sum behind the list is painted, though an exponential reaches it. -/
theorem exponential_sum_painted_behind_unsafe_list : ∃ prepared allow,
    prepare (sampleSettings []) unsafeListGraph = .ok prepared ∧
    prepared.finalAllow = .ok allow ∧ prepared.impl.DangerousPath 4 [6, 9] 10 ∧ 10 ∈ allow :=
  run_of_test (sampleSettings []) unsafeListGraph rfl rfl
    (fun prepared allow => prepared.impl.DangerousPath 4 [6, 9] 10 ∧ 10 ∈ allow)
    (by decide +kernel)

end Itex.AutoMixedPrecision
