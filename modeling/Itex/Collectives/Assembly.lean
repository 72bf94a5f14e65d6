import Itex.Collectives.Manager

/-!
Contract: what the calls made under one key say about the collectives of that
key.

Owns: the grouping of a sequence of calls into collectives, the collective a
group builds, and what its status says about the members of the group.

A group is opened by its first call, and is full with as many calls as that call
has local devices; the next call opens the next group.
-/

namespace Itex.Collectives

variable {α : Type}

/-! ## Grouping -/

abbrev Member (α : Type) : Type := Call α × Nat

def Member.participant (mem : Member α) : Participant α :=
  ⟨mem.2, mem.1.gpuDeviceId, mem.1.input⟩

/-- How many participants the group is created for. -/
def sizeOf (group : List (Member α)) : Nat :=
  (group.head?.map (·.1.context.numLocalDevices)).getD 0

/-- The full groups of a sequence of calls, in order, and the one being
assembled. -/
structure Groups (α : Type) where
  closed : List (List (Member α))
  current : List (Member α)

/-- The next call joins the group being assembled, and may fill it. -/
def Groups.put (groups : Groups α) (mem : Member α) : Groups α :=
  if (groups.current ++ [mem]).length = sizeOf (groups.current ++ [mem]) then
    ⟨groups.closed ++ [groups.current ++ [mem]], []⟩
  else ⟨groups.closed, groups.current ++ [mem]⟩

/-- The groups of a whole sequence. -/
def groupsOf (members : List (Member α)) : Groups α := members.foldl Groups.put ⟨[], []⟩

theorem groupsOf_append (members : List (Member α)) (mem : Member α) :
    groupsOf (members ++ [mem]) = (groupsOf members).put mem := by
  simp only [groupsOf, List.foldl_append, List.foldl_cons, List.foldl_nil]

/-- The groups cut the sequence: every closed group has the size it was created
for, and the group being assembled has fewer members than that. -/
structure Groups.Cut (groups : Groups α) (members : List (Member α)) : Prop where
  whole : members = groups.closed.flatten ++ groups.current
  full : ∀ group ∈ groups.closed, group ≠ [] ∧ group.length = sizeOf group
  partly : groups.current ≠ [] → groups.current.length < sizeOf groups.current

theorem sizeOf_append (group : List (Member α)) (mem : Member α) (nonempty : group ≠ []) :
    sizeOf (group ++ [mem]) = sizeOf group := by
  cases group with
  | nil => exact absurd rfl nonempty
  | cons first rest => rfl

theorem Groups.Cut.put {groups : Groups α} {members : List (Member α)} (cut : groups.Cut members) {mem : Member α}
    (pos : 1 ≤ mem.1.context.numLocalDevices) : (groups.put mem).Cut (members ++ [mem]) := by
  unfold Groups.put
  split
  · next isFull =>
    refine ⟨?_, ?_, fun nonempty => absurd rfl nonempty⟩
    · rw [cut.whole]
      simp
    · intro group listed
      rcases List.mem_append.1 listed with old | isNew
      · exact cut.full group old
      · rw [List.mem_singleton.1 isNew]
        exact ⟨by simp, isFull⟩
  · next notFull =>
    refine ⟨?_, cut.full, fun _ => ?_⟩
    · rw [cut.whole, List.append_assoc]
    · by_cases empty : groups.current = []
      · rw [empty] at notFull ⊢
        simp only [List.nil_append, List.length_cons, List.length_nil, sizeOf, List.head?_cons,
          Option.map_some, Option.getD_some] at notFull ⊢
        omega
      · have fewer := cut.partly empty
        rw [sizeOf_append _ _ empty, List.length_append] at *
        simp only [List.length_cons, List.length_nil] at *
        omega

theorem cut_groupsOf {members : List (Member α)} (pos : ∀ mem ∈ members, 1 ≤ mem.1.context.numLocalDevices) :
    (groupsOf members).Cut members := by
  induction members using List.reverseRecOn with
  | nil => exact ⟨rfl, fun _ listed => (List.not_mem_nil listed).elim, fun some => absurd rfl some⟩
  | append_singleton members mem ih =>
    rw [groupsOf_append]
    apply (ih fun other listed => pos other (by simp [listed])).put
    exact pos mem (by simp)

/-! ## The collective of a group -/

/-- The collective a call creates. -/
def Member.opened (mem : Member α) : Collective α :=
  Collective.make mem.1.context mem.1.input.dtype .allReduce mem.1.reductionOp

def Collective.join (collective : Collective α) (mem : Member α) : Collective α :=
  collective.add mem.participant mem.1.context .allReduce mem.1.reductionOp

def build : List (Member α) → Option (Collective α)
  | [] => none
  | first :: rest => some ((first :: rest).foldl Collective.join first.opened)

theorem build_append (group : List (Member α)) (mem : Member α) :
    build (group ++ [mem]) = some (((build group).getD mem.opened).join mem) := by
  cases group with
  | nil => rfl
  | cons first rest =>
    simp only [build, List.cons_append, List.foldl_cons, List.foldl_append, List.foldl_nil, Option.getD_some]

theorem Status.failIf_eq_ok {status : Status} {mismatch : Bool} {message : String} :
    status.failIf mismatch message = .ok ↔ status = .ok ∧ mismatch = false := by
  unfold Status.failIf
  split
  · next failed =>
    obtain ⟨-, isTrue⟩ := failed
    simp [isTrue]
  · simp_all

/-- The member gives the data type, reduction and device count the collective was
created with. -/
def Collective.Agrees (collective : Collective α) (mem : Member α) : Prop :=
  mem.1.input.dtype = collective.dataType ∧ mem.1.reductionOp = collective.reductionOp ∧
    mem.1.context.numLocalDevices = collective.numLocalDevices

theorem Collective.agrees_of_join {collective : Collective α} {mem : Member α}
    (isOk : (collective.join mem).status = .ok) : collective.status = .ok ∧ collective.Agrees mem := by
  simp only [Collective.join, Collective.add, Collective.statusWith, Status.failIf_eq_ok, bne_eq_false_iff_eq] at isOk
  obtain ⟨⟨⟨⟨⟨⟨wasOk, dataType⟩, reductionOp⟩, -⟩, devices⟩, -⟩, -⟩ := isOk
  exact ⟨wasOk, dataType.symm, reductionOp.symm, devices.symm⟩

/-- What a sequence of calls leaves of the collective they join. -/
structure Collective.Joined (collective : Collective α) (members : List (Member α))
    (joined : Collective α) : Prop where
  collectiveKey : joined.collectiveKey = collective.collectiveKey
  dataType : joined.dataType = collective.dataType
  type : joined.type = collective.type
  reductionOp : joined.reductionOp = collective.reductionOp
  numLocalDevices : joined.numLocalDevices = collective.numLocalDevices
  participants : joined.participants = collective.participants ++ members.map Member.participant
  availableParticipants : joined.availableParticipants = collective.availableParticipants + members.length
  agrees : joined.status = .ok → collective.status = .ok ∧ ∀ mem ∈ members, collective.Agrees mem

theorem Collective.joined_foldl (collective : Collective α) (members : List (Member α)) :
    collective.Joined members (members.foldl Collective.join collective) := by
  induction members generalizing collective with
  | nil =>
    refine ⟨rfl, rfl, rfl, rfl, rfl, by simp, rfl, fun isOk => ⟨isOk, ?_⟩⟩
    intro mem listed
    cases listed
  | cons mem members ih =>
    have rest := ih (collective.join mem)
    refine ⟨rest.collectiveKey, rest.dataType, rest.type, rest.reductionOp, rest.numLocalDevices, ?_, ?_, ?_⟩
    · rw [List.foldl_cons, rest.participants]
      simp [Collective.join, Collective.add]
    · rw [List.foldl_cons, rest.availableParticipants]
      simp only [Collective.join, Collective.add, List.length_cons]
      omega
    · intro isOk
      obtain ⟨joinedOk, restAgrees⟩ := rest.agrees isOk
      obtain ⟨wasOk, agrees⟩ := Collective.agrees_of_join joinedOk
      refine ⟨wasOk, ?_⟩
      intro other listed
      rcases List.mem_cons.1 listed with rfl | inRest
      · exact agrees
      · exact restAgrees other inRest

/-- The collective of a group, field by field. -/
structure Built (group : List (Member α)) (collective : Collective α) : Prop where
  type : collective.type = .allReduce
  participants : collective.participants = group.map Member.participant
  availableParticipants : collective.availableParticipants = group.length
  numLocalDevices : collective.numLocalDevices = sizeOf group
  collectiveKey : ∀ key, (∀ mem ∈ group, mem.1.context.collectiveKey = key) → collective.collectiveKey = key
  agrees : collective.status = .ok → ∀ mem ∈ group, collective.Agrees mem

theorem built_of_build {group : List (Member α)} {collective : Collective α}
    (isBuilt : build group = some collective) : Built group collective := by
  cases group with
  | nil => cases isBuilt
  | cons first rest =>
    have joined := first.opened.joined_foldl (first :: rest)
    have same := Option.some.inj isBuilt
    rw [same] at joined
    refine ⟨joined.type, joined.participants, ?_, joined.numLocalDevices, ?_, ?_⟩
    · rw [joined.availableParticipants]
      exact Nat.zero_add _
    · intro key keys
      rw [joined.collectiveKey]
      exact keys first List.mem_cons_self
    · intro isOk mem listed
      obtain ⟨dataType, reductionOp, devices⟩ := (joined.agrees isOk).2 mem listed
      refine ⟨?_, ?_, ?_⟩
      · rw [joined.dataType]
        exact dataType
      · rw [joined.reductionOp]
        exact reductionOp
      · rw [joined.numLocalDevices]
        exact devices

theorem Built.isReady_iff {group : List (Member α)} {collective : Collective α} (built : Built group collective) :
    collective.isReady = true ↔ group.length = sizeOf group := by
  rw [Collective.isReady, beq_iff_eq, built.availableParticipants, built.numLocalDevices]

theorem Collective.runCollective_facts {kernel : Kernel α} {collective : Collective α}
    (isAllReduce : collective.type = .allReduce) {status : Status} {outputs : List (Nat × List α)}
    (ran : collective.runCollective kernel = .ok (status, outputs)) :
    (status = .ok → collective.status = .ok ∧ ∃ numElements,
      ∀ participant ∈ collective.participants, participant.input.numElements = numElements) ∧
      (status ≠ .ok → outputs = []) ∧
      ∀ output ∈ outputs, ∃ participant ∈ collective.participants, participant.id = output.1 := by
  have notBroadcast : (collective.type == .broadcast && decide (collective.rootRank < 0)) = false := by
    rw [isAllReduce]
    rfl
  unfold Collective.runCollective at ran
  have unfailed : collective.status.failIf
      (collective.type == .broadcast && decide (collective.rootRank < 0))
      ("Root rank not indicated for collective " ++ collective.collectiveKey) =
      collective.status := by
    unfold Status.failIf
    rw [if_neg (by simp [notBroadcast])]
  dsimp only at ran
  rw [unfailed, isAllReduce] at ran
  split at ran
  · next assembled =>
    dsimp only at ran
    unfold Collective.runAllReduce at ran
    dsimp only at ran
    split at ran
    · cases ran
      exact ⟨nofun, fun _ => rfl, fun _ listed => (List.not_mem_nil listed).elim⟩
    · next same =>
      have equal : ∀ participant ∈ collective.participants, participant.input.numElements =
          (collective.participants.head?.map (·.input.numElements)).getD 0 := by
        intro participant listed
        have notDifferent := List.find?_eq_none.1 same participant listed
        simp only [bne_iff_ne, ne_eq, Decidable.not_not] at notDifferent
        exact notDifferent.symm
      split at ran
      · split at ran
        · cases ran
          exact ⟨fun _ => ⟨assembled, _, equal⟩, fun _ => rfl, fun _ listed => (List.not_mem_nil listed).elim⟩
        · split at ran
          · cases ran
            refine ⟨fun _ => ⟨assembled, _, equal⟩, fun failed => absurd rfl failed, ?_⟩
            intro output listed
            obtain ⟨participant, joined, rfl⟩ := List.mem_map.1 listed
            exact ⟨participant, joined, rfl⟩
          · cases ran
      · cases ran
        exact ⟨nofun, fun _ => rfl, fun _ listed => (List.not_mem_nil listed).elim⟩
  · next failed =>
    cases ran
    exact ⟨fun isOk => absurd isOk failed, fun _ => rfl, fun _ listed => (List.not_mem_nil listed).elim⟩

end Itex.Collectives
