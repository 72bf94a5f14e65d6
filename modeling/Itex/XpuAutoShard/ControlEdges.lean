import Itex.Graph.Types
import Itex.Lib.Fallible

/-!
Contract: control edges between devices when an operation is lowered to its shards
(`tensorflow/passes/hs_to_tfg.cpp`,
`lowerFrameworkOp` and `buildFrameworkOpOperands`).

Owns: the operands of each new operation, the `NoOp`s that stand for several control edges of
one device, and when a new operation depends on exactly the operands that were selected for it.

An operand is a number. Of the operation that defines it, the device attribute is kept. The
order of a hash map is a parameter.
-/

namespace Itex.XpuAutoShard.ControlEdges

open Itex.Graph (Failure)
open Itex.Lib

variable {groups : List Selected} {newOperands : List NewOperand} {noOps noOps' : List (List Nat)}
  {now pre : List Nat} {other : String} {built : List NewOperand × State} {number v : Nat}

/-- What is read of the operands. -/
structure Operands where
  isControl : Nat → Bool
  /-- `kDeviceAttr` of the defining operation. -/
  deviceAttr : Nat → Option String

inductive NewOperand where
  | operand (v : Nat)
  /-- The control edge of a `NoOp`, by its number. -/
  | noOp (number : Nat)
deriving DecidableEq, Repr

structure State where
  /-- The device attributes of the users of each operand, newest first. -/
  users : Nat → List (Option String)
  /-- What the `NoOp`s wait for, in the order in which they were built. -/
  noOps : List (List Nat)
  deviceNoopMp : String → Option Nat

/-- The operands of one group, and its device. -/
structure Selected where
  device : String
  operands : List Nat
deriving DecidableEq, Repr

/-- A group of shards: its device, and the number of the shard of each operand. -/
structure ShardDescGroup where
  device : String
  nums : List Nat

def getHostDeviceName : String := "CPU:0"

def devicePrefix : String := "/job:localhost/replica:0/task:0/device:"

def getMlirDeviceName (deviceName : String) : String :=
  if '/' ∈ deviceName.toList then deviceName else devicePrefix ++ deviceName

section Lowering

variable (info : Operands)

/-- The device attribute of the defining operation, or else the first of a user. -/
def getDeviceNameForValue (users : Nat → List (Option String)) (v : Nat) : String :=
  let deviceName :=
    match info.deviceAttr v with
    | some name => name
    | none => (((users v).filterMap id).find? fun name => decide (name ≠ "")).getD ""
  if deviceName ≠ "" then deviceName else getHostDeviceName

/-- A new user of some operands. -/
def addUses (users : Nat → List (Option String)) (vs : List Nat) (device : String) : Nat → List (Option String) :=
  vs.foldl (fun users v => Function.update users v (some device :: users v)) users

/-- The control edges from another device. -/
def isRemote (users : Nat → List (Option String)) (currentDevice : String) (v : Nat) : Bool :=
  !(currentDevice == getDeviceNameForValue info users v || !info.isControl v)

/-- The control edges of one entry of `control_edges_per_device`. -/
def controlEdges (users : Nat → List (Option String)) (currentDevice : String) (operands : List Nat)
    (device : String) : List Nat :=
  (operands.filter (isRemote info users currentDevice)).filter fun v => getDeviceNameForValue info users v == device

/-- The second loop, for one device. -/
def connect (edges : String → List Nat) (built : List NewOperand × State) (device : String) :
    List NewOperand × State :=
  let (newOperands, state) := built
  match edges device with
  | [edge] => (newOperands ++ [.operand edge], state)
  | edges =>
    match state.deviceNoopMp device with
    | some number => (newOperands ++ [.noOp number], state)
    | none =>
      (newOperands ++ [.noOp state.noOps.length],
        { users := addUses state.users edges (getMlirDeviceName device)
          noOps := state.noOps ++ [edges]
          deviceNoopMp := Function.update state.deviceNoopMp device (some state.noOps.length) })

/-- The devices of the control edges from other devices. -/
def remoteDevices (users : Nat → List (Option String)) (currentDevice : String) (operands : List Nat) : List String :=
  ((operands.filter (isRemote info users currentDevice)).map (getDeviceNameForValue info users)).dedup

variable (iteration : List String → List String)

def buildFrameworkOpOperands (selected : Selected) (state : State) : List NewOperand × State :=
  let currentDevice := getMlirDeviceName selected.device
  let newOperands := (selected.operands.filter fun v => !isRemote info state.users currentDevice v).map NewOperand.operand
  (iteration (remoteDevices info state.users currentDevice selected.operands)).foldl
    (connect (controlEdges info state.users currentDevice selected.operands)) (newOperands, state)

/-- The operands that are not the control edge of a `NoOp`. -/
def directOperands (newOperands : List NewOperand) : List Nat :=
  newOperands.filterMap fun newOperand =>
    match newOperand with
    | .operand v => some v
    | .noOp _ => none

/-- The operands of the new operation, which becomes a user of them. -/
def lowerGroup (hostOnly : Bool) (selected : Selected) (state : State) : List NewOperand × State :=
  let (newOperands, state) := buildFrameworkOpOperands info iteration selected state
  let device := getMlirDeviceName (if hostOnly then getHostDeviceName else selected.device)
  (newOperands, { state with users := addUses state.users (directOperands newOperands) device })

/-- `have_same_control_edge_compared_last_group`, after the first group. -/
def haveSameControlEdge (now pre : List Nat) : Bool :=
  (now.zip pre).all fun (operandNow, operandPre) =>
    let isControlNow := info.isControl operandNow
    -- The source reads the type of the operand of this group here, too.
    let isControlPre := info.isControl operandNow
    if isControlNow != isControlPre then false
    else !(isControlNow && operandNow != operandPre)

/-- The state in which a group is lowered. -/
def invalidate (pre : Option (List Nat)) (now : List Nat) (state : State) : State :=
  match pre with
  | none => state
  | some pre => if haveSameControlEdge info now pre then state else { state with deviceNoopMp := fun _ => none }

/-- The loop over the groups. -/
def lowerGroups (hostOnly : Bool) : Option (List Nat) → State → List Selected → List (List NewOperand) × State
  | _, state, [] => ([], state)
  | pre, state, selected :: rest =>
    let (newOperands, state) := lowerGroup info iteration hostOnly selected (invalidate info pre selected.operands state)
    let (others, state) := lowerGroups hostOnly (some selected.operands) state rest
    (newOperands :: others, state)

/-- `sharded_operands[operand_idx][shard_desc_group[operand_idx].getNum()]`. -/
def select (shardedOperands : List (List Nat)) (group : ShardDescGroup) : Except Failure Selected := do
  let operands ← shardedOperands.zipIdx.mapM fun (sharded, operandIdx) =>
    match (group.nums[operandIdx]?).bind fun num => sharded[num]? with
    | some operand => .ok operand
    | none => .error (.crash "vector subscript out of range")
  return ⟨group.device, operands⟩

def lowerFrameworkOp (hostOnly : Bool) (users : Nat → List (Option String)) (shardedOperands : List (List Nat))
    (groups : List ShardDescGroup) : Except Failure (List (List NewOperand) × State) := do
  let selected ← groups.mapM (select shardedOperands)
  return lowerGroups info iteration hostOnly none ⟨users, [], fun _ => none⟩ selected

end Lowering

/-- What a new operation depends on, directly or through the `NoOp`s. -/
def dependencies (noOps : List (List Nat)) (newOperands : List NewOperand) : List Nat :=
  newOperands.flatMap fun newOperand =>
    match newOperand with
    | .operand v => [v]
    | .noOp number => noOps.getD number []

/-- Dependence on exactly some operands, with the data operands in order. -/
structure Exact (info : Operands) (noOps : List (List Nat)) (operands : List Nat) (newOperands : List NewOperand) :
    Prop where
  dependencies : ∀ v, v ∈ ControlEdges.dependencies noOps newOperands ↔ v ∈ operands
  dataOrder : (directOperands newOperands).filter (fun v => !info.isControl v) =
    operands.filter fun v => !info.isControl v

/-! ## One group -/

/-- The numbers of the kept `NoOp`s are those of `NoOp`s. -/
def State.Kept (state : State) : Prop :=
  ∀ device number, state.deviceNoopMp device = some number → number < state.noOps.length

theorem getD_of_longer (longer : noOps <+: noOps')
    (inside : number < noOps.length) : noOps'.getD number [] = noOps.getD number [] := by
  obtain ⟨more, rfl⟩ := longer
  rw [List.getD_append _ _ _ _ inside]

/-- What a device contributes to the dependencies. -/
def supplied (edges : String → List Nat) (state : State) (device : String) : List Nat :=
  match edges device with
  | [edge] => [edge]
  | edges =>
    match state.deviceNoopMp device with
    | some number => state.noOps.getD number []
    | none => edges

/-- One device: one operand more, and nothing that was kept or built is lost. -/
structure Connected (edges : String → List Nat) (device : String) (built built' : List NewOperand × State)
    (newOperand : NewOperand) : Prop where
  operands : built'.1 = built.1 ++ [newOperand]
  noOps : built.2.noOps <+: built'.2.noOps
  kept : built'.2.Kept
  others : ∀ other, other ≠ device → built'.2.deviceNoopMp other = built.2.deviceNoopMp other
  supplied : dependencies built'.2.noOps [newOperand] = supplied edges built.2 device
  isEdge : ∀ v, newOperand = .operand v → v ∈ edges device
  inRange : ∀ number, newOperand = .noOp number → number < built'.2.noOps.length

theorem dependencies_singleton (noOps : List (List Nat)) (newOperand : NewOperand) : dependencies noOps [newOperand] =
      match newOperand with
      | .operand v => [v]
      | .noOp number => noOps.getD number [] := List.append_nil _

section

variable (edges : String → List Nat)

include edges

theorem connect_connected (kept : built.2.Kept)
    (device : String) : ∃ newOperand, Connected edges device built (connect edges built device) newOperand := by
  obtain ⟨newOperands, state⟩ := built
  unfold connect
  dsimp only
  split
  next edge isEdge =>
    refine ⟨.operand edge, rfl, List.prefix_refl _, kept, fun _ _ => rfl, ?_, ?_, fun number same => by cases same⟩
    · rw [dependencies_singleton]
      unfold supplied
      rw [isEdge]
    · intro v same
      cases same
      rw [isEdge]
      exact List.mem_cons_self
  next notSingle =>
    have isSupplied : supplied edges state device = match state.deviceNoopMp device with
        | some number => state.noOps.getD number []
        | none => edges device := by
      unfold supplied
      split
      next edge isEdge => exact absurd isEdge (notSingle edge)
      next => rfl
    split
    next number isKept =>
      refine ⟨.noOp number, rfl, List.prefix_refl _, kept, fun _ _ => rfl, ?_, fun v same => (by cases same), ?_⟩
      · rw [dependencies_singleton, isSupplied, isKept]
      · intro other same
        cases same
        exact kept device number isKept
    next notKept =>
      refine ⟨.noOp state.noOps.length, rfl, List.prefix_append _ _, ?_, ?_, ?_, fun v same => (by cases same), ?_⟩
      · intro other number isNumber
        rw [List.length_append, List.length_singleton]
        by_cases same : other = device
        · rw [same] at isNumber
          dsimp only at isNumber
          rw [Function.update_self] at isNumber
          cases isNumber
          exact Nat.lt_succ_self _
        · dsimp only at isNumber
          rw [Function.update_of_ne same] at isNumber
          exact Nat.lt_succ_of_lt (kept other number isNumber)
      · intro other ne
        exact Function.update_of_ne ne _ _
      · rw [dependencies_singleton, isSupplied, notKept]
        dsimp only
        rw [List.getD_append_right _ _ _ _ (Nat.le_refl _), Nat.sub_self]
        rfl
      · intro number same
        cases same
        rw [List.length_append, List.length_singleton]
        exact Nat.lt_succ_self _

theorem connect_all_kept (devices : List String)
    (kept : built.2.Kept) : built.2.noOps <+: (devices.foldl (connect edges) built).2.noOps ∧
      (devices.foldl (connect edges) built).2.Kept := by
  induction devices generalizing built with
  | nil => exact ⟨List.prefix_refl _, kept⟩
  | cons device devices ih =>
    obtain ⟨newOperand, connected⟩ := connect_connected edges kept device
    obtain ⟨longer, kept'⟩ := ih connected.kept
    exact ⟨connected.noOps.trans longer, kept'⟩

/-- All devices: each contributes what it would from the start. -/
theorem connect_all {devices : List String} (distinct : devices.Nodup)
    {built : List NewOperand × State} (kept : built.2.Kept) :
    ∃ added, (devices.foldl (connect edges) built).1 = built.1 ++ added ∧
      (∀ v, v ∈ dependencies (devices.foldl (connect edges) built).2.noOps added ↔
        ∃ device ∈ devices, v ∈ supplied edges built.2 device) ∧
      (∀ v, NewOperand.operand v ∈ added → ∃ device ∈ devices, v ∈ edges device) ∧
      ∀ number, NewOperand.noOp number ∈ added → number < (devices.foldl (connect edges) built).2.noOps.length := by
  induction devices generalizing built with
  | nil =>
    refine ⟨[], (List.append_nil _).symm, ?_, fun _ => nofun, fun _ => nofun⟩
    intro v
    simp [dependencies]
  | cons device devices ih =>
    obtain ⟨notLater, distinct⟩ := List.nodup_cons.1 distinct
    obtain ⟨newOperand, connected⟩ := connect_connected edges kept device
    rw [List.foldl_cons]
    generalize connect edges built device = built' at connected ⊢
    obtain ⟨added, isAdded, iff_, areEdges, inRange⟩ := ih distinct connected.kept
    have longer := (connect_all_kept edges devices connected.kept).1
    refine ⟨newOperand :: added, ?_, ?_, ?_, ?_⟩
    · rw [isAdded, connected.operands, List.append_assoc, List.singleton_append]
    · intro v
      have first : dependencies (devices.foldl (connect edges) built').2.noOps [newOperand] =
          supplied edges built.2 device := by
        rw [← connected.supplied, dependencies_singleton, dependencies_singleton]
        cases isNew : newOperand with
        | operand v => rfl
        | noOp number => exact getD_of_longer longer (connected.inRange number isNew)
      have later : ∀ other ∈ devices, supplied edges built'.2 other = supplied edges built.2 other := by
        intro other mem
        have ne : other ≠ device := by
          rintro rfl
          exact notLater mem
        unfold supplied
        rw [connected.others other ne]
        cases isKept : built.2.deviceNoopMp other with
        | none => rfl
        | some number =>
          dsimp only
          rw [getD_of_longer connected.noOps (kept other number isKept)]
      have split_ : dependencies (devices.foldl (connect edges) built').2.noOps (newOperand :: added) =
          dependencies (devices.foldl (connect edges) built').2.noOps [newOperand] ++
            dependencies (devices.foldl (connect edges) built').2.noOps added := by
        unfold dependencies
        rw [← List.flatMap_append, List.singleton_append]
      grind
    · intro v mem
      rcases List.mem_cons.1 mem with same | isLater
      · exact ⟨device, List.mem_cons_self, connected.isEdge v same.symm⟩
      · obtain ⟨other, isOther, isEdge⟩ := areEdges v isLater
        exact ⟨other, List.mem_cons_of_mem _ isOther, isEdge⟩
    · intro number mem
      rcases List.mem_cons.1 mem with same | isLater
      · exact Nat.lt_of_lt_of_le (connected.inRange number same.symm) longer.length_le
      · exact inRange number isLater

theorem connect_built {device : String}
    (isKept : (connect edges built device).2.deviceNoopMp other = some number) :
    built.2.deviceNoopMp other = some number ∨
      (other = device ∧ (connect edges built device).2.noOps.getD number [] = edges device) := by
  obtain ⟨newOperands, state⟩ := built
  unfold connect at isKept ⊢
  dsimp only at isKept ⊢
  split at isKept
  next => exact .inl isKept
  next notSingle =>
    split at isKept
    next => exact .inl isKept
    next notKept =>
      grind

theorem connect_all_built {devices : List String} (kept : built.2.Kept)
    (isKept : (devices.foldl (connect edges) built).2.deviceNoopMp other = some number) :
    built.2.deviceNoopMp other = some number ∨
      (other ∈ devices ∧ (devices.foldl (connect edges) built).2.noOps.getD number [] = edges other) := by
  induction devices generalizing built with
  | nil => exact .inl isKept
  | cons device devices ih =>
    obtain ⟨newOperand, connected⟩ := connect_connected edges kept device
    rw [List.foldl_cons] at isKept ⊢
    rcases ih connected.kept isKept with before | ⟨isLater, isBuilt⟩
    · rcases connect_built edges before with isOld | ⟨rfl, isBuilt⟩
      · exact .inl isOld
      · refine .inr ⟨List.mem_cons_self, ?_⟩
        rw [← isBuilt]
        exact getD_of_longer (connect_all_kept edges devices connected.kept).1 (connected.kept _ _ before)
    · exact .inr ⟨List.mem_cons_of_mem _ isLater, isBuilt⟩

end

section Group

variable {info : Operands} {iteration : List String → List String} {hostOnly : Bool} {selected : Selected}
  {state : State}

/-- Two or more remote control edges of a device for which a `NoOp` is kept. -/
structure Reuses (info : Operands) (state : State) (selected : Selected) (device : String) (number : Nat) : Prop where
  remote : device ∈ remoteDevices info state.users (getMlirDeviceName selected.device) selected.operands
  many : (controlEdges info state.users (getMlirDeviceName selected.device) selected.operands device).length ≠ 1
  kept : state.deviceNoopMp device = some number

/-- The kept `NoOp`s that are used wait for operands of the group, and all control edges of their
devices have one that waits for them. -/
structure Fresh (info : Operands) (state : State) (selected : Selected) : Prop where
  wanted : ∀ {device number}, Reuses info state selected device number →
    ∀ v ∈ state.noOps.getD number [], v ∈ selected.operands
  covered : ∀ {device number}, Reuses info state selected device number →
    ∀ v ∈ controlEdges info state.users (getMlirDeviceName selected.device) selected.operands device,
      ∃ device' number', Reuses info state selected device' number' ∧ v ∈ state.noOps.getD number' []

section

variable {users : Nat → List (Option String)} {currentDevice device : String} {operands : List Nat}

theorem mem_controlEdges : v ∈ controlEdges info users currentDevice operands device ↔
      v ∈ operands ∧ isRemote info users currentDevice v = true ∧ getDeviceNameForValue info users v = device := by
  unfold controlEdges
  rw [List.mem_filter, List.mem_filter, beq_iff_eq, and_assoc]

theorem mem_remoteDevices : device ∈ remoteDevices info users currentDevice operands ↔
      ∃ v, v ∈ controlEdges info users currentDevice operands device := by
  unfold remoteDevices
  rw [List.mem_dedup, List.mem_map]
  constructor
  · intro ⟨v, mem, isDevice⟩
    obtain ⟨isOperand, isRemote⟩ := List.mem_filter.1 mem
    exact ⟨v, mem_controlEdges.2 ⟨isOperand, isRemote, isDevice⟩⟩
  · intro ⟨v, mem⟩
    obtain ⟨isOperand, isRemote, isDevice⟩ := mem_controlEdges.1 mem
    exact ⟨v, List.mem_filter.2 ⟨isOperand, isRemote⟩, isDevice⟩

end

theorem mem_supplied {device : String}
    (isRemote : device ∈ remoteDevices info state.users (getMlirDeviceName selected.device) selected.operands) :
    v ∈ supplied (controlEdges info state.users (getMlirDeviceName selected.device) selected.operands) state device ↔
      (∃ number, Reuses info state selected device number ∧ v ∈ state.noOps.getD number []) ∨
      ((∀ number, ¬ Reuses info state selected device number) ∧
        v ∈ controlEdges info state.users (getMlirDeviceName selected.device) selected.operands device) := by
  have reuses_iff : ∀ number, Reuses info state selected device number ↔
      (controlEdges info state.users (getMlirDeviceName selected.device) selected.operands device).length ≠ 1 ∧
        state.deviceNoopMp device = some number :=
    fun number => ⟨fun reuses => ⟨reuses.many, reuses.kept⟩, fun reuses => ⟨isRemote, reuses.1, reuses.2⟩⟩
  unfold supplied
  split
  next edge isEdge =>
    simp [reuses_iff, isEdge]
  next notSingle =>
    have many : (controlEdges info state.users (getMlirDeviceName selected.device) selected.operands device).length ≠ 1 := by
      intro single
      obtain ⟨edge, isEdge⟩ := List.length_eq_one_iff.1 single
      exact notSingle edge isEdge
    cases isKept : state.deviceNoopMp device with
    | none => simp [reuses_iff, isKept]
    | some number => simp [reuses_iff, isKept, many]

theorem isData_of_direct {users : Nat → List (Option String)} {currentDevice : String}
    (isData : info.isControl v = false) : isRemote info users currentDevice v = false := by
  unfold isRemote
  rw [isData, Bool.not_false, Bool.or_true, Bool.not_true]

/-- What lowering a group leaves and what its operands depend on. -/
structure GroupLowered (info : Operands) (state : State) (selected : Selected) (newOperands : List NewOperand)
    (state' : State) : Prop where
  noOps : state.noOps <+: state'.noOps
  kept : state'.Kept
  inRange : ∀ number, NewOperand.noOp number ∈ newOperands → number < state'.noOps.length
  dependencies : ∀ v, v ∈ dependencies state'.noOps newOperands ↔
    (v ∈ selected.operands ∧ isRemote info state.users (getMlirDeviceName selected.device) v = false) ∨
      ∃ device ∈ remoteDevices info state.users (getMlirDeviceName selected.device) selected.operands,
        v ∈ supplied (controlEdges info state.users (getMlirDeviceName selected.device) selected.operands) state device
  dataOrder : (directOperands newOperands).filter (fun v => !info.isControl v) =
    selected.operands.filter fun v => !info.isControl v

theorem lowerGroup_lowered (orders : ∀ devices, (iteration devices).Perm devices) (kept : state.Kept) :
    GroupLowered info state selected (lowerGroup info iteration hostOnly selected state).1
      (lowerGroup info iteration hostOnly selected state).2 := by
  have distinct : (iteration (remoteDevices info state.users (getMlirDeviceName selected.device) selected.operands)).Nodup :=
    (orders _).nodup_iff.2 (List.nodup_dedup _)
  unfold lowerGroup buildFrameworkOpOperands
  dsimp only
  obtain ⟨added, isAdded, iff_, areEdges, inRange⟩ := @connect_all
    (controlEdges info state.users (getMlirDeviceName selected.device) selected.operands) _ distinct
    ((selected.operands.filter fun v => !isRemote info state.users (getMlirDeviceName selected.device) v).map
      NewOperand.operand, state) kept
  obtain ⟨longer, kept'⟩ := connect_all_kept
    (controlEdges info state.users (getMlirDeviceName selected.device) selected.operands)
    (iteration (remoteDevices info state.users (getMlirDeviceName selected.device) selected.operands))
    (show ((selected.operands.filter fun v => !isRemote info state.users (getMlirDeviceName selected.device) v).map
      NewOperand.operand, state).2.Kept from kept)
  generalize (iteration (remoteDevices info state.users (getMlirDeviceName selected.device) selected.operands)).foldl
    (connect (controlEdges info state.users (getMlirDeviceName selected.device) selected.operands)) _ = built at *
  have isDirect : ∀ direct : List Nat, directOperands (direct.map NewOperand.operand) = direct := by
    intro direct
    unfold directOperands
    rw [List.filterMap_map]
    exact List.filterMap_some
  refine ⟨longer, kept', ?_, ?_, ?_⟩
  · simp_all
  · intro v
    have direct : dependencies built.2.noOps built.1 =
        (selected.operands.filter fun v => !isRemote info state.users (getMlirDeviceName selected.device) v) ++
          dependencies built.2.noOps added := by
      rw [isAdded]
      unfold dependencies
      rw [List.flatMap_append, List.flatMap_map]
      exact congrArg (· ++ _) (List.flatMap_singleton' _)
    rw [direct, List.mem_append, iff_, List.mem_filter, Bool.not_eq_true']
    apply or_congr_right
    simp only [(orders _).mem_iff]
  · have noData : (directOperands added).filter (fun v => !info.isControl v) = [] := by
      rw [List.filter_eq_nil_iff]
      intro v mem isData
      obtain ⟨newOperand, isNew, isOperand⟩ := List.mem_filterMap.1 mem
      cases newOperand with
      | noOp number => cases isOperand
      | operand w =>
        cases isOperand
        obtain ⟨device, -, isEdge⟩ := areEdges v isNew
        have remote := (mem_controlEdges.1 isEdge).2.1
        rw [isData_of_direct (Bool.not_eq_true' _ ▸ isData)] at remote
        cases remote
    rw [isAdded]
    unfold directOperands at noData isDirect ⊢
    rw [List.filterMap_append, List.filter_append, noData, List.append_nil, isDirect, List.filter_filter]
    apply List.filter_congr
    intro v _
    cases isData : info.isControl v with
    | true => rfl
    | false =>
      rw [isData_of_direct isData]
      rfl

/-- The dependencies are right exactly if no stale `NoOp` is reused. -/
theorem GroupLowered.exact_iff {state' : State}
    (lowered : GroupLowered info state selected newOperands state') :
    Exact info state'.noOps selected.operands newOperands ↔ Fresh info state selected := by
  constructor
  · intro exact
    constructor
    · intro device number reuses v waits
      rw [← exact.dependencies, lowered.dependencies]
      exact .inr ⟨device, reuses.remote, (mem_supplied reuses.remote).2 (.inl ⟨number, reuses, waits⟩)⟩
    · intro device number reuses v isEdge
      obtain ⟨isOperand, remote, isDevice⟩ := mem_controlEdges.1 isEdge
      rw [← exact.dependencies, lowered.dependencies] at isOperand
      rcases isOperand with ⟨-, notRemote⟩ | ⟨device', isRemote', isSupplied⟩
      · rw [remote] at notRemote
        cases notRemote
      · rcases (mem_supplied isRemote').1 isSupplied with ⟨number', reuses', waits⟩ | ⟨notReuses, isEdge'⟩
        · exact ⟨device', number', reuses', waits⟩
        · rw [← (mem_controlEdges.1 isEdge').2.2, isDevice] at notReuses
          exact absurd reuses (notReuses number)
  · intro fresh
    refine ⟨?_, lowered.dataOrder⟩
    intro v
    rw [lowered.dependencies]
    constructor
    · rintro (⟨isOperand, -⟩ | ⟨device, isRemote', isSupplied⟩)
      · exact isOperand
      · rcases (mem_supplied isRemote').1 isSupplied with ⟨number, reuses, waits⟩ | ⟨-, isEdge⟩
        · exact fresh.wanted reuses v waits
        · exact (mem_controlEdges.1 isEdge).1
    · intro isOperand
      cases remote : isRemote info state.users (getMlirDeviceName selected.device) v with
      | false => exact .inl ⟨isOperand, rfl⟩
      | true =>
        right
        have isEdge := mem_controlEdges.2 ⟨isOperand, remote, rfl⟩
        have isRemote' := mem_remoteDevices.2 ⟨v, isEdge⟩
        by_cases reused : ∃ number, Reuses info state selected (getDeviceNameForValue info state.users v) number
        · obtain ⟨number, reuses⟩ := reused
          obtain ⟨device', number', reuses', waits⟩ := fresh.covered reuses v isEdge
          exact ⟨device', reuses'.remote, (mem_supplied reuses'.remote).2 (.inl ⟨number', reuses', waits⟩)⟩
        · exact ⟨_, isRemote', (mem_supplied isRemote').2 (.inr ⟨not_exists.1 reused, isEdge⟩)⟩

end Group

section Run

variable (info : Operands) (iteration : List String → List String) (hostOnly : Bool)

/-- No group reuses a stale `NoOp`. -/
def FreshRun : Option (List Nat) → State → List Selected → Prop
  | _, _, [] => True
  | pre, state, selected :: rest =>
    Fresh info (invalidate info pre selected.operands state) selected ∧ FreshRun (some selected.operands)
        (lowerGroup info iteration hostOnly selected (invalidate info pre selected.operands state)).2 rest

variable {info iteration hostOnly}

theorem invalidate_kept {pre : Option (List Nat)} {now : List Nat} {state : State} (kept : state.Kept) :
    (invalidate info pre now state).Kept := by
  unfold invalidate
  cases pre with
  | none => exact kept
  | some pre =>
    dsimp only
    split
    · exact kept
    · intro device number isNumber
      cases isNumber

theorem invalidate_noOps (pre : Option (List Nat)) (now : List Nat) (state : State) :
    (invalidate info pre now state).noOps = state.noOps := by
  unfold invalidate
  cases pre with
  | none => rfl
  | some pre =>
    dsimp only
    split <;> rfl

theorem lowerGroups_noOps (orders : ∀ devices, (iteration devices).Perm devices) {pre : Option (List Nat)}
    {state : State} (kept : state.Kept) (groups : List Selected) :
    state.noOps <+: (lowerGroups info iteration hostOnly pre state groups).2.noOps := by
  induction groups generalizing pre state with
  | nil => exact List.prefix_refl _
  | cons selected rest ih =>
    have lowered := @lowerGroup_lowered info iteration hostOnly selected _ orders (@invalidate_kept info pre selected.operands _ kept)
    have first := lowered.noOps
    rw [invalidate_noOps] at first
    exact first.trans (ih lowered.kept)

theorem dependencies_of_longer (longer : noOps <+: noOps')
    (inRange : ∀ number, NewOperand.noOp number ∈ newOperands → number < noOps.length) :
    dependencies noOps' newOperands = dependencies noOps newOperands := by
  unfold dependencies
  apply List.flatMap_congr
  intro newOperand mem
  cases newOperand with
  | operand v => rfl
  | noOp number => exact getD_of_longer longer (inRange number mem)

theorem lowerGroups_exact_iff (orders : ∀ devices, (iteration devices).Perm devices) {pre : Option (List Nat)}
    {state : State} (kept : state.Kept) (groups : List Selected) : List.Forall₂ (fun selected newOperands =>
        Exact info (lowerGroups info iteration hostOnly pre state groups).2.noOps selected.operands newOperands) groups
        (lowerGroups info iteration hostOnly pre state groups).1 ↔
      FreshRun info iteration hostOnly pre state groups := by
  induction groups generalizing pre state with
  | nil => simp [lowerGroups, FreshRun]
  | cons selected rest ih =>
    have lowered := @lowerGroup_lowered info iteration hostOnly selected _ orders (@invalidate_kept info pre selected.operands _ kept)
    have later := @ih (some selected.operands) _ lowered.kept
    have longer := @lowerGroups_noOps info iteration hostOnly orders (some selected.operands) _ lowered.kept rest
    have same := dependencies_of_longer longer lowered.inRange
    have exact_iff := lowered.exact_iff
    change List.Forall₂ _ (selected :: rest) (_ :: (lowerGroups info iteration hostOnly (some selected.operands)
      (lowerGroup info iteration hostOnly selected (invalidate info pre selected.operands state)).2 rest).1) ↔ _ ∧ _
    rw [List.forall₂_cons, ← later, ← exact_iff]
    apply and_congr_left
    intro _
    constructor
    · intro exact
      exact ⟨fun v => by rw [← same]; exact exact.dependencies v, exact.dataOrder⟩
    · intro exact
      refine ⟨fun v => ?_, exact.dataOrder⟩
      rw [← exact.dependencies v, ← same]
      rfl

end Run

section Placed

variable {info : Operands} {iteration : List String → List String} {hostOnly : Bool}

/-- The control edges among some operands come from operations with a device attribute. -/
def Placed (info : Operands) (operands : List Nat) : Prop :=
  ∀ v ∈ operands, info.isControl v = true → ∃ name, info.deviceAttr v = some name

/-- The operands of two groups that are control edges stand at the same positions. -/
def Uniform (info : Operands) (now pre : List Nat) : Prop :=
  List.Forall₂ (fun operandNow operandPre => info.isControl operandNow = info.isControl operandPre) now pre

/-- The kept `NoOp`s wait for the control edges of their devices. -/
def Settled (info : Operands) (operands : List Nat) (state : State) : Prop :=
  ∀ device number, state.deviceNoopMp device = some number → ∀ v, v ∈ state.noOps.getD number [] ↔
    v ∈ operands ∧ info.isControl v = true ∧ getDeviceNameForValue info (fun _ => []) v = device

theorem getDeviceName_placed {name : String} (isName : info.deviceAttr v = some name)
    (users : Nat → List (Option String)) :
    getDeviceNameForValue info users v = getDeviceNameForValue info (fun _ => []) v := by
  unfold getDeviceNameForValue
  rw [isName]

theorem isControl_of_isRemote {users : Nat → List (Option String)} {currentDevice : String}
    (remote : isRemote info users currentDevice v = true) : info.isControl v = true := by
  cases isControl : info.isControl v with
  | true => rfl
  | false =>
    rw [isData_of_direct isControl] at remote
    cases remote

theorem mem_iff_of_haveSameControlEdge (uniform : Uniform info now pre)
    (same : haveSameControlEdge info now pre = true) (isControl : info.isControl v = true) :
    v ∈ pre ↔ v ∈ now := by
  induction uniform with
  | nil => exact Iff.rfl
  | @cons operandNow operandPre now pre sameType _ ih =>
    unfold haveSameControlEdge at same ih
    rw [List.zip_cons_cons, List.all_cons, Bool.and_eq_true] at same
    grind

theorem Settled.invalidate {state : State} (settled : Settled info pre state)
    (uniform : Uniform info now pre) : Settled info now (invalidate info (some pre) now state) := by
  unfold ControlEdges.invalidate
  dsimp only
  split
  next same =>
    intro device number isKept v
    rw [settled device number isKept v]
    constructor
    · intro ⟨mem, isControl, isDevice⟩
      exact ⟨(mem_iff_of_haveSameControlEdge uniform same isControl).1 mem, isControl, isDevice⟩
    · intro ⟨mem, isControl, isDevice⟩
      exact ⟨(mem_iff_of_haveSameControlEdge uniform same isControl).2 mem, isControl, isDevice⟩
  next =>
    intro device number isKept
    cases isKept

theorem Settled.fresh {selected : Selected} {state : State} (settled : Settled info selected.operands state)
    (placed : Placed info selected.operands) : Fresh info state selected := by
  constructor
  · intro device number reuses v waits
    exact ((settled device number reuses.kept v).1 waits).1
  · intro device number reuses v isEdge
    obtain ⟨isOperand, remote, isDevice⟩ := mem_controlEdges.1 isEdge
    have isControl := isControl_of_isRemote remote
    obtain ⟨name, isName⟩ := placed v isOperand isControl
    rw [getDeviceName_placed isName] at isDevice
    exact ⟨device, number, reuses, (settled device number reuses.kept v).2 ⟨isOperand, isControl, isDevice⟩⟩

theorem isRemote_eq_true_iff {users : Nat → List (Option String)} {currentDevice : String} :
    isRemote info users currentDevice v = true ↔
      info.isControl v = true ∧ currentDevice ≠ getDeviceNameForValue info users v := by
  unfold isRemote
  simp [and_comm]

theorem Settled.lowerGroup {selected : Selected} {state : State} (settled : Settled info selected.operands state)
    (orders : ∀ devices, (iteration devices).Perm devices) (kept : state.Kept) (placed : Placed info selected.operands) :
    Settled info selected.operands (lowerGroup info iteration hostOnly selected state).2 := by
  unfold ControlEdges.lowerGroup buildFrameworkOpOperands
  dsimp only
  intro device number isKept v
  dsimp only at isKept ⊢
  have longer := (connect_all_kept
    (controlEdges info state.users (getMlirDeviceName selected.device) selected.operands)
    (iteration (remoteDevices info state.users (getMlirDeviceName selected.device) selected.operands))
    (show ((selected.operands.filter fun v => !isRemote info state.users (getMlirDeviceName selected.device) v).map
      NewOperand.operand, state).2.Kept from kept)).1
  rcases connect_all_built _ kept isKept with before | ⟨inDevices, isBuilt⟩
  · rw [getD_of_longer longer (kept device number before)]
    exact settled device number before v
  · rw [isBuilt, mem_controlEdges, isRemote_eq_true_iff]
    rw [(orders _).mem_iff, mem_remoteDevices] at inDevices
    obtain ⟨w, isEdge⟩ := inDevices
    obtain ⟨-, remote, isDevice⟩ := mem_controlEdges.1 isEdge
    have other := (isRemote_eq_true_iff.1 remote).2
    rw [isDevice] at other
    constructor
    · intro ⟨isOperand, ⟨isControl, _⟩, ofV⟩
      obtain ⟨name, isName⟩ := placed v isOperand isControl
      rw [getDeviceName_placed isName] at ofV
      exact ⟨isOperand, isControl, ofV⟩
    · intro ⟨isOperand, isControl, ofV⟩
      obtain ⟨name, isName⟩ := placed v isOperand isControl
      rw [← getDeviceName_placed isName state.users] at ofV
      rw [ofV]
      exact ⟨isOperand, ⟨isControl, other⟩, rfl⟩

theorem freshRun_of_placed (orders : ∀ devices, (iteration devices).Perm devices) {state : State}
    (settled : Settled info pre state) (kept : state.Kept)
    (placed : ∀ selected ∈ groups, Placed info selected.operands)
    (uniform : ∀ selected ∈ groups, Uniform info selected.operands pre) :
    FreshRun info iteration hostOnly (some pre) state groups := by
  induction groups generalizing pre state with
  | nil => exact trivial
  | cons selected rest ih =>
    have ofFirst := uniform selected List.mem_cons_self
    have before := settled.invalidate ofFirst
    have placedFirst := placed selected List.mem_cons_self
    have keptBefore := @invalidate_kept info (some pre) selected.operands _ kept
    have lowered := @lowerGroup_lowered info iteration hostOnly selected _ orders keptBefore
    refine ⟨before.fresh placedFirst, ih (before.lowerGroup orders keptBefore placedFirst) lowered.kept
      (fun other mem => placed other (List.mem_cons_of_mem _ mem)) ?_⟩
    intro other mem
    have ofOther := uniform other (List.mem_cons_of_mem _ mem)
    unfold Uniform at ofFirst ofOther ⊢
    rw [List.forall₂_iff_get] at ofFirst ofOther ⊢
    simp_all

theorem freshRun_start (orders : ∀ devices, (iteration devices).Perm devices) (users : Nat → List (Option String))
    (placed : ∀ selected ∈ groups, Placed info selected.operands)
    (uniform : ∀ selected ∈ groups, ∀ other ∈ groups, Uniform info selected.operands other.operands) :
    FreshRun info iteration hostOnly none ⟨users, [], fun _ => none⟩ groups := by
  cases groups with
  | nil => exact trivial
  | cons selected rest =>
    have kept : (⟨users, [], fun _ => none⟩ : State).Kept := fun _ _ isKept => by cases isKept
    have settled : Settled info selected.operands ⟨users, [], fun _ => none⟩ := fun _ _ isKept => by cases isKept
    have placedFirst := placed selected List.mem_cons_self
    have lowered := @lowerGroup_lowered info iteration hostOnly selected _ orders kept
    exact ⟨settled.fresh placedFirst, freshRun_of_placed orders (settled.lowerGroup orders kept placedFirst) lowered.kept
      (fun other mem => placed other (List.mem_cons_of_mem _ mem))
      fun other mem => uniform other (List.mem_cons_of_mem _ mem) selected List.mem_cons_self⟩

theorem select_operands {shardedOperands : List (List Nat)} {group : ShardDescGroup} {selected : Selected}
    (isSelected : select shardedOperands group = .ok selected) :
    List.Forall₂ (fun sharded operand => operand ∈ sharded) shardedOperands selected.operands := by
  obtain ⟨operands, areOperands, isResult⟩ := bind_ok.1 isSelected
  cases isResult
  have each := mapM_eq_ok.1 areOperands
  rw [List.forall₂_iff_get] at each ⊢
  obtain ⟨sameLength, each⟩ := each
  rw [List.length_zipIdx] at sameLength
  refine ⟨sameLength, ?_⟩
  intro i inside inside'
  have atI := each i (by rwa [List.length_zipIdx]) inside'
  grind

end Placed

/-- The new operations depend on exactly the operands of their groups exactly if no group reuses a
stale `NoOp`. None is stale where the operands at one position are all control edges or all data
and control edges come from operations with a device attribute. -/
theorem lowerFrameworkOp_exact_iff {info : Operands} {iteration : List String → List String} {hostOnly : Bool}
    (orders : ∀ devices, (iteration devices).Perm devices) (users : Nat → List (Option String))
    {shardedOperands : List (List Nat)} {groups : List ShardDescGroup} {selected : List Selected}
    (isSelected : groups.mapM (select shardedOperands) = .ok selected) :
    ∃ lowered, lowerFrameworkOp info iteration hostOnly users shardedOperands groups = .ok lowered ∧
      (List.Forall₂ (fun group newOperands => Exact info lowered.2.noOps group.operands newOperands) selected lowered.1 ↔
        FreshRun info iteration hostOnly none ⟨users, [], fun _ => none⟩ selected) ∧
      ((∀ sharded ∈ shardedOperands, (∀ v ∈ sharded, ∀ w ∈ sharded, info.isControl v = info.isControl w) ∧
          Placed info sharded) → FreshRun info iteration hostOnly none ⟨users, [], fun _ => none⟩ selected) := by
  have kept : (⟨users, [], fun _ => none⟩ : State).Kept := fun _ _ isKept => by cases isKept
  refine ⟨lowerGroups info iteration hostOnly none ⟨users, [], fun _ => none⟩ selected, ?_,
    lowerGroups_exact_iff orders kept selected, ?_⟩
  · unfold lowerFrameworkOp
    rw [isSelected]
    rfl
  · intro ofOperands
    have areOperands : ∀ group ∈ selected,
        List.Forall₂ (fun sharded operand => operand ∈ sharded) shardedOperands group.operands := by
      intro group member
      obtain ⟨_, -, isGroup⟩ := mem_source_of_mapM isSelected member
      exact select_operands isGroup
    apply freshRun_start orders
    · intro group member v isOperand
      obtain ⟨sharded, isSharded, inSharded⟩ := exists_of_forall₂_of_mem_right (areOperands group member) isOperand
      exact (ofOperands sharded isSharded).2 v inSharded
    · intro group member other isOther
      have first := areOperands group member
      have second := areOperands other isOther
      unfold Uniform
      rw [List.forall₂_iff_get] at first second ⊢
      refine ⟨first.1.symm.trans second.1, ?_⟩
      intro i inside inside'
      have inSharded : i < shardedOperands.length := by rwa [first.1]
      exact (ofOperands _ (List.get_mem shardedOperands ⟨i, inSharded⟩)).1 _ (first.2 i inSharded inside) _
        (second.2 i inSharded inside')

/-- A data operand and three control edges, two of them from the first device, and the last from an
operation with this device attribute. -/
def fourOperands (deviceAttr : Option String) : Operands where
  isControl := fun v => decide (v ≠ 0)
  deviceAttr := fun v => if v = 3 then deviceAttr else some (devicePrefix ++ "XPU:0")

def fourShardedOperands : List (List Nat) := [[0, 0, 0], [1, 1, 1], [2, 2, 2], [3, 3, 3]]

def threeGroups : List ShardDescGroup :=
  [⟨"XPU:1", [0, 0, 0, 0]⟩, ⟨"XPU:0", [1, 1, 1, 1]⟩, ⟨"XPU:2", [2, 2, 2, 2]⟩]

def threeSelected : List Selected :=
  [⟨"XPU:1", [0, 1, 2, 3]⟩, ⟨"XPU:0", [0, 1, 2, 3]⟩, ⟨"XPU:2", [0, 1, 2, 3]⟩]

/-- With a device for each operation, the third group reuses the `NoOp` of the first. -/
theorem noOp_reused : ∃ lowered,
    lowerFrameworkOp (fourOperands (some (devicePrefix ++ "XPU:0"))) id false (fun _ => []) fourShardedOperands
      threeGroups = .ok lowered ∧
    lowered.1 = [[.operand 0, .noOp 0], [.operand 0, .operand 1, .operand 2, .operand 3], [.operand 0, .noOp 0]] ∧
    List.Forall₂ (fun group newOperands =>
      Exact (fourOperands (some (devicePrefix ++ "XPU:0"))) lowered.2.noOps group.operands newOperands)
      threeSelected lowered.1 := by
  have isSelected : threeGroups.mapM (select fourShardedOperands) = .ok threeSelected := rfl
  obtain ⟨lowered, isLowered, iff_, fresh⟩ := @lowerFrameworkOp_exact_iff
    (fourOperands (some (devicePrefix ++ "XPU:0"))) id false (fun _ => List.Perm.refl _) (fun _ => []) _ _ _ isSelected
  refine ⟨lowered, isLowered, ?_, iff_.2 (fresh ?_)⟩
  · cases isLowered
    decide +kernel
  · intro sharded member
    constructor
    · revert sharded
      decide
    · intro v _ _
      exact ⟨devicePrefix ++ "XPU:0", ite_self _⟩

/-- Without a device attribute, the last control edge is guessed to be on the device of its newest
user. In the third group that is the first device, whose `NoOp` does not wait for it. -/
theorem controlEdge_lost : ∃ lowered, threeGroups.mapM (select fourShardedOperands) = .ok threeSelected ∧
    lowerFrameworkOp (fourOperands none) id false (fun _ => []) fourShardedOperands threeGroups = .ok lowered ∧
    lowered.1 = [[.operand 0, .noOp 0, .operand 3], [.operand 0, .operand 1, .operand 2, .operand 3],
      [.operand 0, .noOp 0]] ∧ lowered.2.noOps = [[1, 2]] ∧
    ¬ List.Forall₂ (fun group newOperands => Exact (fourOperands none) lowered.2.noOps group.operands newOperands)
      threeSelected lowered.1 := by
  have isFirst : (lowerGroups (fourOperands none) id false none ⟨fun _ => [], [], fun _ => none⟩ threeSelected).1 =
      [[.operand 0, .noOp 0, .operand 3], [.operand 0, .operand 1, .operand 2, .operand 3], [.operand 0, .noOp 0]] := by
    decide +kernel
  have isSecond : (lowerGroups (fourOperands none) id false none ⟨fun _ => [], [], fun _ => none⟩
      threeSelected).2.noOps = [[1, 2]] := by
    decide +kernel
  refine ⟨lowerGroups (fourOperands none) id false none ⟨fun _ => [], [], fun _ => none⟩ threeSelected, rfl, rfl,
    isFirst, isSecond, ?_⟩
  intro exact_
  rw [isFirst, isSecond] at exact_
  cases exact_ with
  | cons _ exact_ =>
    cases exact_ with
    | cons _ exact_ =>
      cases exact_ with
      | cons third _ => exact absurd ((third.dependencies 3).2 (by decide)) (by decide)

end Itex.XpuAutoShard.ControlEdges
