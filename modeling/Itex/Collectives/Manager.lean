import Itex.Lib.Fallible

/-!
Contract: `CollectiveManager` (`itex/core/kernels/gpu/collective_ops.h`) and the
op that calls it (`collective_ops.cc`), as a system of concurrent calls.

Owns: participants, collectives, the critical section of `AddParticipant`,
`RunCollective` and `RunAllReduce`, and the steps a set of calls takes.

Does not own: the reduction kernel, which is a parameter, or streams and events, which
order device work only.

A call of `AddToAllReduce` is one critical section, in which its participant joins a
collective. The call that fills one takes it out of the map there, and runs it
afterwards: once to validate and launch, then one step for each `done_callback`.
-/

namespace Itex.Collectives

inductive Status where
  | ok
  | invalidArgument (message : String)
deriving DecidableEq, Repr

inductive DataType where
  | bfloat16
  | half
  | float
  | int32
  /-- Any other type, with its `DataTypeString`. -/
  | other (name : String)
deriving DecidableEq, Repr

def DataType.toString : DataType → String
  | .bfloat16 => "bfloat16"
  | .half => "half"
  | .float => "float"
  | .int32 => "int32"
  | .other name => name

inductive ReductionOp where
  | sum
  | min
  | max
  | prod
deriving DecidableEq, Repr

/-- `static_cast<int>` of a `ReductionOp`. -/
def ReductionOp.toNat : ReductionOp → Nat
  | .sum => 0
  | .min => 1
  | .max => 2
  | .prod => 3

inductive CollectiveType where
  | allReduce
  | broadcast
  | reduce
  | allGather
  | reduceScatter
  | allToAll
deriving DecidableEq, Repr

/-- `static_cast<int>` of a `CollectiveType`. -/
def CollectiveType.toNat : CollectiveType → Nat
  | .allReduce => 0
  | .broadcast => 1
  | .reduce => 2
  | .allGather => 3
  | .reduceScatter => 4
  | .allToAll => 5

structure Tensor (α : Type) where
  dtype : DataType
  elements : List α
deriving DecidableEq, Repr

def Tensor.numElements {α : Type} (tensor : Tensor α) : Nat := tensor.elements.length

/-- `CollectiveManager::Participant`. The number stands for its `done_callback`
and for its output tensor, which are its own. -/
structure Participant (α : Type) where
  id : Nat
  gpuDeviceId : Nat
  input : Tensor α
deriving DecidableEq, Repr

/-- `CollectiveManager::Context`. -/
structure Context where
  collectiveKey : String
  numLocalDevices : Nat
  rootRank : Int
deriving DecidableEq, Repr

/-- `CollectiveManager::Collective`. -/
structure Collective (α : Type) where
  collectiveKey : String
  dataType : DataType
  type : CollectiveType
  reductionOp : ReductionOp
  numLocalDevices : Nat
  participants : List (Participant α) := []
  rootRank : Int := -1
  availableParticipants : Nat := 0
  status : Status := .ok
deriving DecidableEq, Repr

abbrev maxRankSize : Nat := 16

/-- The ways a step can fail to be taken. -/
inductive Stop where
  /-- `ITEX_LOG(FATAL)`: the reduction size is not supported. -/
  | fatal (reductionSize : Nat)
  /-- No such step in this state. -/
  | disabled
deriving DecidableEq, Repr

variable {α : Type}

/-! ## The critical section -/

/-- One of the checks `if (status.ok() && mismatch) status = ...`. -/
def Status.failIf (status : Status) (mismatch : Bool) (message : String) : Status :=
  if status = .ok ∧ mismatch = true then .invalidArgument message else status

/-- `new Collective(...)`. -/
def Collective.make (context : Context) (dataType : DataType) (type : CollectiveType)
    (reductionOp : ReductionOp) : Collective α where
  collectiveKey := context.collectiveKey
  dataType := dataType
  type := type
  reductionOp := reductionOp
  numLocalDevices := context.numLocalDevices

/-- The checks `AddParticipant` makes against the collective. -/
def Collective.statusWith (collective : Collective α) (context : Context) (dataType : DataType)
    (type : CollectiveType) (reductionOp : ReductionOp) : Status :=
  let status := collective.status
  let status := status.failIf (collective.dataType != dataType)
    ("Collective previously initialized with datatype " ++ collective.dataType.toString ++
      " but now got datatype " ++ dataType.toString)
  let status := status.failIf (collective.reductionOp != reductionOp)
    ("Collective previously initialized with reduction_op " ++
      toString collective.reductionOp.toNat ++ " but now got reduction_op " ++
      toString reductionOp.toNat)
  let status := status.failIf (collective.type != type)
    ("Collective previously initialized with type " ++ toString collective.type.toNat ++
      " but now got type " ++ toString type.toNat)
  let status := status.failIf (collective.numLocalDevices != context.numLocalDevices)
    ("Collective previously initialized with num_local_devices " ++
      toString collective.numLocalDevices ++ " but now got " ++ toString context.numLocalDevices)
  let status := status.failIf
    (decide (collective.numLocalDevices ≤ collective.participants.length))
    ("Collective expected " ++ toString collective.numLocalDevices ++
      " participants but now has " ++ toString collective.participants.length ++
      " with one more participant being added")
  status.failIf
    (decide (0 ≤ collective.rootRank) && decide (0 ≤ context.rootRank) &&
      collective.rootRank != context.rootRank)
    ("Collective " ++ collective.collectiveKey ++ " already has root_rank " ++
      toString collective.rootRank ++ " but new participant has root_rank " ++
      toString context.rootRank)

def Collective.add (collective : Collective α) (participant : Participant α) (context : Context)
    (type : CollectiveType) (reductionOp : ReductionOp) : Collective α :=
  { collective with
    status := collective.statusWith context participant.input.dtype type reductionOp
    rootRank := if 0 ≤ context.rootRank then context.rootRank else collective.rootRank
    participants := collective.participants ++ [participant]
    availableParticipants := collective.availableParticipants + 1 }

/-- The state `CollectiveManager` guards with `mu_`: `collectives_` and
`status_`. -/
structure CollectiveManager (α : Type) where
  collectives : String → Option (Collective α)
  status : Status

/-- The test of `CheckReady`. -/
def Collective.isReady (collective : Collective α) : Bool :=
  collective.availableParticipants == collective.numLocalDevices

/-- The critical section of `AddParticipant`, entered with `status_` OK: the
participant joins the collective of its key, and a collective that is ready
leaves the map for the call to run it. -/
def CollectiveManager.addParticipant (manager : CollectiveManager α)
    (participant : Participant α) (context : Context) (type : CollectiveType)
    (reductionOp : ReductionOp) : CollectiveManager α × Option (Collective α) :=
  let collective := ((manager.collectives context.collectiveKey).getD
    (Collective.make context participant.input.dtype type reductionOp)).add participant context
      type reductionOp
  if collective.isReady then
    ({ manager with
        collectives := Function.update manager.collectives context.collectiveKey none },
      some collective)
  else
    ({ manager with
        collectives := Function.update manager.collectives context.collectiveKey
          (some collective) }, none)

/-- The types `RunAllReduce` has a kernel for. -/
def DataType.isReducible : DataType → Bool
  | .other _ => false
  | _ => true

/-- What a kernel computes from the inputs of all participants. -/
abbrev Kernel (α : Type) : Type := DataType → ReductionOp → List (List α) → List α

/-- `RunAllReduce`, with the outputs it writes. The kernel returns early when
there is no element, and gives up beyond `MAX_RANK_SIZE` participants. -/
def Collective.runAllReduce (kernel : Kernel α) (collective : Collective α) :
    Except Stop (Status × List (Nat × List α)) :=
  let numElements := (collective.participants.head?.map (·.input.numElements)).getD 0
  match collective.participants.find? (fun participant =>
      numElements != participant.input.numElements) with
  | some participant =>
    .ok (.invalidArgument ("Collective Allreduce require the tensors have the same number of " ++
        "elements, one rank has NumElements: " ++ toString numElements ++
        " while another rankhas NumElements: " ++ toString participant.input.numElements), [])
  | none =>
    if collective.dataType.isReducible then
      if numElements = 0 then .ok (.ok, [])
      else if collective.participants.length ≤ maxRankSize then
        .ok (.ok, collective.participants.map fun participant =>
          (participant.id, kernel collective.dataType collective.reductionOp
            (collective.participants.map (·.input.elements))))
      else .error (.fatal collective.participants.length)
    else
      .ok (.invalidArgument ("Collective Allreduce unsupports datatype " ++ collective.dataType.toString), [])

/-- The status `RunCollective` ends with, and the outputs it writes. -/
def Collective.runCollective (kernel : Kernel α) (collective : Collective α) :
    Except Stop (Status × List (Nat × List α)) :=
  let status := collective.status.failIf
    (collective.type == .broadcast && decide (collective.rootRank < 0))
    ("Root rank not indicated for collective " ++ collective.collectiveKey)
  if status = .ok then
    match collective.type with
    | .allReduce => collective.runAllReduce kernel
    | type => .ok (.invalidArgument ("ITEX does not support collective " ++ toString type.toNat ++ " yet!"), [])
  else .ok (status, [])

/-! ## Concurrent calls -/

/-- The arguments of one call of `AddToAllReduce`. -/
structure Call (α : Type) where
  gpuDeviceId : Nat
  input : Tensor α
  context : Context
  reductionOp : ReductionOp
deriving DecidableEq, Repr

def getCollectiveKey (collectivePrefix : String) (stepId frameId iterId : Int) : String :=
  collectivePrefix ++ ";" ++ toString stepId ++ ";" ++ toString frameId ++ ":" ++ toString iterId

/-- The call `AllReduceOp::ComputeAsync` makes. -/
def Call.ofComputeAsync (collectivePrefix : String) (stepId frameId iterId : Int)
    (numDevices gpuId : Nat) (input : Tensor α) (reductionOp : ReductionOp) : Call α where
  gpuDeviceId := gpuId
  input := input
  context := ⟨getCollectiveKey collectivePrefix stepId frameId iterId, numDevices, -1⟩
  reductionOp := reductionOp

/-- How far a call has come with the collective it took out of the map. -/
inductive Phase where
  | ready
  /-- The status is known, and the first `next` callbacks have been called. -/
  | notifying (status : Status) (next : Nat)
deriving DecidableEq, Repr

/-- A collective in the hands of the call that filled it. -/
structure Run (α : Type) where
  collective : Collective α
  phase : Phase
deriving DecidableEq, Repr

/-- The manager, the collectives that left its map, in that order, and what an
observer has seen: the calls made, the callbacks called and the outputs
written. -/
structure System (α : Type) where
  manager : CollectiveManager α
  runs : List (Run α)
  calls : List (Call α)
  callbacks : List (Nat × Status)
  outputs : List (Nat × List α)

namespace System

def start : System α where
  manager := ⟨fun _ => none, .ok⟩
  runs := []
  calls := []
  callbacks := []
  outputs := []

inductive Event (α : Type) where
  /-- A call goes through the critical section. -/
  | add (call : Call α)
  /-- The call that holds this collective validates it and launches the kernel. -/
  | launch (run : Nat)
  /-- The call that holds this collective calls its next callback. -/
  | notify (run : Nat)
deriving DecidableEq, Repr

def newParticipant (system : System α) (call : Call α) : Participant α :=
  ⟨system.calls.length, call.gpuDeviceId, call.input⟩

/-- `AddToAllReduce`, up to the end of the critical section; with `status_` not
OK the participant is told so at once. -/
def add (system : System α) (call : Call α) : System α :=
  if system.manager.status = .ok then
    let (manager, toRun) := system.manager.addParticipant (system.newParticipant call)
      call.context .allReduce call.reductionOp
    { system with
      manager := manager
      runs := system.runs ++ toRun.toList.map fun collective => ⟨collective, .ready⟩
      calls := system.calls ++ [call] }
  else
    { system with
      calls := system.calls ++ [call]
      callbacks := system.callbacks ++ [(system.calls.length, system.manager.status)] }

/-- The first half of `RunCollective`. -/
def launch (kernel : Kernel α) (system : System α) (index : Nat) : Except Stop (System α) :=
  match system.runs[index]? with
  | some ⟨collective, .ready⟩ => do
      let (status, outputs) ← collective.runCollective kernel
      return { system with
        runs := system.runs.set index ⟨collective, .notifying status 0⟩
        outputs := system.outputs ++ outputs }
  | _ => .error .disabled

/-- One round of the loop of `RunCollective` over the callbacks. -/
def notify (system : System α) (index : Nat) : Except Stop (System α) :=
  match system.runs[index]? with
  | some ⟨collective, .notifying status next⟩ =>
    if next < collective.numLocalDevices then
      match collective.participants[next]? with
      | some participant => .ok { system with
          runs := system.runs.set index ⟨collective, .notifying status (next + 1)⟩
          callbacks := system.callbacks ++ [(participant.id, status)] }
      | none => .error .disabled
    else .error .disabled
  | _ => .error .disabled

def step (kernel : Kernel α) (system : System α) : Event α → Except Stop (System α)
  | .add call => if 1 ≤ call.context.numLocalDevices then .ok (system.add call)
      else .error .disabled
  | .launch index => system.launch kernel index
  | .notify index => system.notify index

/-- The states that calls for at least one device each can reach, in any
interleaving. -/
inductive Reachable (kernel : Kernel α) : System α → Prop
  | start : Reachable kernel start
  | step {system system' : System α} {event : Event α} :
      Reachable kernel system → step kernel system event = .ok system' →
      Reachable kernel system'

def run (kernel : Kernel α) (events : List (Event α)) : Except Stop (System α) :=
  events.foldlM (step kernel) start

end System

end Itex.Collectives
