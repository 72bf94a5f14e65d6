import Itex.Collectives.Assembly

/-!
Contract: no interleaving of calls loses or mixes participants.

Owns: the invariant of the system of concurrent calls, and from it that every
participant is at exactly one place, that collectives run exactly when they are
full, and that a collective gives all its participants one status.
-/

namespace Itex.Collectives

open Itex.Lib

variable {i index : Nat} {key : String} {α : Type}

theorem count_flatMap_filter {β : Type} {f : β → List Nat} {test : β → Bool}
    {items : List β} (silent : ∀ item ∈ items, test item = false → i ∉ f item) :
    (items.flatMap f).count i = ((items.filter test).flatMap f).count i := by
  induction items with
  | nil => rfl
  | cons item items ih =>
    grind

theorem two_le_count_flatMap {β : Type} {f : β → List Nat} {items : List β} {a b : β}
    (ne : a ≠ b) (aListed : a ∈ items) (bListed : b ∈ items) (inA : i ∈ f a)
    (inB : i ∈ f b) : 2 ≤ (items.flatMap f).count i := by
  induction items with
  | nil => cases aListed
  | cons item items ih =>
    have one : ∀ c ∈ items, i ∈ f c → 1 ≤ (items.flatMap f).count i := by
      intro c listed inC
      exact List.one_le_count_iff.2 (List.mem_flatMap.2 ⟨c, listed, inC⟩)
    rw [List.flatMap_cons, List.count_append]
    rcases List.mem_cons.1 aListed with rfl | aRest
    · grind
    · grind

/-! ## Where participants are -/

def Collective.ids (collective : Collective α) : List Nat := collective.participants.map (·.id)

theorem Built.ids {group : List (Member α)} {collective : Collective α}
    (built : Built group collective) : collective.ids = group.map Prod.snd := by
  rw [Collective.ids, built.participants, List.map_map]
  rfl

def Run.told (run : Run α) : List (Nat × Status) :=
  match run.phase with
  | .ready => []
  | .notifying status next => (run.collective.participants.take next).map fun participant =>
    (participant.id, status)

/-- The participants whose callbacks the call still has to call. -/
def Run.held (run : Run α) : List Nat :=
  match run.phase with
  | .ready => run.collective.ids
  | .notifying _ next => run.collective.ids.drop next

theorem Run.told_append_held (run : Run α) : run.told.map Prod.fst ++ run.held = run.collective.ids := by
  unfold Run.told Run.held
  cases run.phase with
  | ready => rfl
  | notifying status next =>
    simp only [List.map_map, Collective.ids, ← List.map_drop]
    exact List.map_append.symm.trans (congrArg _ (List.take_append_drop next _))

namespace System

/-- The calls made under a key, with their numbers. -/
def under (system : System α) (key : String) : List (Member α) :=
  system.calls.zipIdx.filter fun member => member.1.context.collectiveKey == key

def waiting (system : System α) (key : String) : List Nat :=
  ((system.manager.collectives key).map Collective.ids).getD []

/-- The collectives of a key that have left the map, in that order. -/
def ranUnder (system : System α) (key : String) : List (Collective α) :=
  (system.runs.map Run.collective).filter fun collective => collective.collectiveKey == key

theorem under_key {system : System α} {member : Member α}
    (listed : member ∈ system.under key) : member.1.context.collectiveKey = key := by
  simpa using (List.mem_filter.1 listed).2

theorem under_call {system : System α} {member : Member α}
    (listed : member ∈ system.under key) : system.calls[member.2]? = some member.1 := by
  have numbered := (List.mem_filter.1 listed).1
  rw [List.mem_zipIdx_iff_getElem?] at numbered
  simpa using numbered

theorem under_append {system system' : System α} {call : Call α}
    (calls : system'.calls = system.calls ++ [call]) (key : String) :
    system'.under key = if call.context.collectiveKey = key then
      system.under key ++ [(call, system.calls.length)] else system.under key := by
  unfold under
  grind

/-- The map holds, for every key, the collective of the group being assembled;
the collectives that left it are those of the closed groups; and the callbacks
called are the ones the calls that run collectives account for. -/
structure Inv (kernel : Kernel α) (system : System α) : Prop where
  statusOk : system.manager.status = .ok
  positive : ∀ call ∈ system.calls, 1 ≤ call.context.numLocalDevices
  assembling : ∀ key, system.manager.collectives key = build (groupsOf (system.under key)).current
  taken : ∀ key, (system.ranUnder key).map some = (groupsOf (system.under key)).closed.map build
  told : system.callbacks.Perm (system.runs.flatMap Run.told)
  launched : ∀ run ∈ system.runs, ∀ status next, run.phase = .notifying status next →
    ∃ outputs, run.collective.runCollective kernel = .ok (status, outputs)
  written : ∀ output ∈ system.outputs, ∃ run ∈ system.runs, ∃ next,
    run.phase = .notifying .ok next ∧ output.1 ∈ run.collective.ids

variable {kernel : Kernel α} {system system' : System α}

theorem inv_start : Inv kernel (start : System α) where
  statusOk := rfl
  positive _ listed := (List.not_mem_nil listed).elim
  assembling _ := rfl
  taken _ := rfl
  told := List.Perm.nil
  launched _ listed := (List.not_mem_nil listed).elim
  written _ listed := (List.not_mem_nil listed).elim

theorem Inv.cut (inv : Inv kernel system) (key : String) : (groupsOf (system.under key)).Cut (system.under key) := by
  apply cut_groupsOf
  intro member listed
  exact inv.positive member.1 (List.mem_of_getElem? (under_call listed))

/-! ## The critical section keeps the invariant -/

def joined (system : System α) (call : Call α) : Collective α :=
  ((system.manager.collectives call.context.collectiveKey).getD
    (Collective.make call.context call.input.dtype .allReduce call.reductionOp)).add
    (system.newParticipant call) call.context .allReduce call.reductionOp

/-- The runs the call starts: one, if it filled the collective. -/
def started (system : System α) (call : Call α) : List (Run α) :=
  if (system.joined call).isReady then [⟨system.joined call, .ready⟩] else []

structure Added (system : System α) (call : Call α) (system' : System α) : Prop where
  collectives : system'.manager.collectives = Function.update system.manager.collectives call.context.collectiveKey
      (if (system.joined call).isReady then none else some (system.joined call))
  status : system'.manager.status = system.manager.status
  runs : system'.runs = system.runs ++ system.started call
  calls : system'.calls = system.calls ++ [call]
  callbacks : system'.callbacks = system.callbacks
  outputs : system'.outputs = system.outputs

theorem added_add (statusOk : system.manager.status = .ok) (call : Call α) : Added system call (system.add call) := by
  have same : ((system.manager.collectives call.context.collectiveKey).getD
      (Collective.make call.context (system.newParticipant call).input.dtype .allReduce
        call.reductionOp)).add (system.newParticipant call) call.context .allReduce
        call.reductionOp = system.joined call := rfl
  unfold add CollectiveManager.addParticipant
  rw [if_pos statusOk, same]
  dsimp only
  by_cases ready : (system.joined call).isReady = true
  · rw [if_pos ready]
    exact ⟨by rw [if_pos ready], rfl, by simp [ready, started], rfl, rfl, rfl⟩
  · rw [if_neg ready]
    exact ⟨by rw [if_neg ready], rfl, by simp [ready, started], rfl, rfl, rfl⟩

theorem Inv.build_joined (inv : Inv kernel system) (call : Call α) :
    build ((groupsOf (system.under call.context.collectiveKey)).current ++
      [(call, system.calls.length)]) = some (system.joined call) := by
  rw [build_append, ← inv.assembling]
  rfl

theorem Inv.key_joined (inv : Inv kernel system) (call : Call α) :
    (system.joined call).collectiveKey = call.context.collectiveKey := by
  apply (built_of_build (inv.build_joined call)).collectiveKey
  intro member listed
  rcases List.mem_append.1 listed with old | isNew
  · have listed : member ∈ system.under call.context.collectiveKey := by
      rw [(inv.cut call.context.collectiveKey).whole]
      exact List.mem_append_right _ old
    exact under_key listed
  · rw [List.mem_singleton.1 isNew]

theorem told_started (call : Call α) : (system.started call).flatMap Run.told = [] := by
  unfold started
  split <;> rfl

theorem not_started {call : Call α} {run : Run α} {status : Status} {next : Nat}
    (isNotifying : run.phase = .notifying status next) : run ∉ system.started call := by
  intro listed
  unfold started at listed
  split at listed
  · rw [List.mem_singleton.1 listed] at isNotifying
    cases isNotifying
  · cases listed

theorem Inv.ranUnder_added (inv : Inv kernel system) {call : Call α}
    (added : Added system call system') (key : String) : system'.ranUnder key = system.ranUnder key ++
      if (system.joined call).isReady ∧ call.context.collectiveKey = key then [system.joined call] else [] := by
  have joinedKey := inv.key_joined call
  unfold ranUnder
  rw [added.runs, List.map_append, List.filter_append]
  congr 1
  unfold started
  grind

theorem Inv.added (inv : Inv kernel system) {call : Call α} (added : Added system call system')
    (positive : 1 ≤ call.context.numLocalDevices) : Inv kernel system' := by
  have builds := inv.build_joined call
  have ready := (built_of_build builds).isReady_iff
  refine ⟨added.status.trans inv.statusOk, ?_, ?_, ?_, ?_, ?_, ?_⟩
  · intro other listed
    rw [added.calls] at listed
    rcases List.mem_append.1 listed with old | isNew
    · exact inv.positive other old
    · rw [List.mem_singleton.1 isNew]
      exact positive
  · intro key
    rw [added.collectives, under_append added.calls, Function.update_apply]
    by_cases same : key = call.context.collectiveKey
    · subst same
      rw [if_pos rfl, if_pos rfl, groupsOf_append]
      unfold Groups.put
      by_cases full : (system.joined call).isReady = true
      · rw [if_pos full, if_pos (ready.1 full)]
        rfl
      · rw [if_neg full, if_neg fun isFull => full (ready.2 isFull)]
        exact builds.symm
    · rw [if_neg same, if_neg (Ne.symm same)]
      exact inv.assembling key
  · intro key
    rw [inv.ranUnder_added added, under_append added.calls, List.map_append, inv.taken key]
    by_cases same : call.context.collectiveKey = key
    · subst same
      rw [if_pos rfl, groupsOf_append]
      unfold Groups.put
      grind
    · rw [if_neg fun both => same both.2, if_neg same]
      exact List.append_nil _
  · rw [added.callbacks, added.runs, List.flatMap_append, told_started, List.append_nil]
    exact inv.told
  · intro run listed status next isNotifying
    rw [added.runs] at listed
    rcases List.mem_append.1 listed with old | isNew
    · exact inv.launched run old status next isNotifying
    · exact absurd isNew (not_started isNotifying)
  · intro output listed
    rw [added.outputs] at listed
    obtain ⟨run, ranOld, next, isNotifying, inIds⟩ := inv.written output listed
    refine ⟨run, ?_, next, isNotifying, inIds⟩
    rw [added.runs]
    exact List.mem_append_left _ ranOld

/-! ## Running a collective keeps the invariant -/

/-- One run goes from one phase to another. -/
structure Advanced (system : System α) (collective : Collective α) (before after : Phase)
    (system' : System α) : Prop where
  manager : system'.manager = system.manager
  calls : system'.calls = system.calls
  runs : ∃ front back, system.runs = front ++ ⟨collective, before⟩ :: back ∧
    system'.runs = front ++ ⟨collective, after⟩ :: back

theorem advanced_set {collective : Collective α} {before after : Phase}
    (found : system.runs[index]? = some ⟨collective, before⟩) (manager : system'.manager =
      system.manager) (calls : system'.calls = system.calls)
    (runs : system'.runs = system.runs.set index ⟨collective, after⟩) :
    Advanced system collective before after system' := by
  obtain ⟨inRange, isRun⟩ := List.getElem?_eq_some_iff.1 found
  obtain ⟨front, back, split, -, replaced⟩ := @List.exists_of_set _ _ ⟨collective, after⟩ _ inRange
  rw [isRun] at split
  exact ⟨manager, calls, front, back, split, runs.trans replaced⟩

section

variable {collective : Collective α} {before after : Phase}
  (advanced : Advanced system collective before after system')

include advanced

theorem Advanced.mem {run : Run α} : run ∈ system'.runs → run ∈ system.runs ∨ run = ⟨collective, after⟩ := by
  obtain ⟨front, back, was, is⟩ := advanced.runs
  rw [was, is]
  simp only [List.mem_append, List.mem_cons]
  tauto

theorem Advanced.kept {run : Run α}
    (listed : run ∈ system.runs) : run ∈ system'.runs ∨ run = ⟨collective, before⟩ := by
  obtain ⟨front, back, was, is⟩ := advanced.runs
  rw [was] at listed
  rw [is]
  simp only [List.mem_append, List.mem_cons] at listed ⊢
  tauto

/-- The collectives do not change, and neither does what was assembled. -/
theorem Advanced.under (key : String) :
    system'.under key = system.under key ∧ system'.ranUnder key = system.ranUnder key := by
  obtain ⟨front, back, was, is⟩ := advanced.runs
  refine ⟨?_, ?_⟩
  · unfold System.under
    rw [advanced.calls]
  · unfold ranUnder
    rw [was, is]
    simp only [List.map_append, List.map_cons]

end

section

variable (inv : Inv kernel system)

include inv

theorem Inv.advanced {collective : Collective α} {before after : Phase}
    (advanced : Advanced system collective before after system')
    (told : system'.callbacks.Perm (system'.runs.flatMap Run.told))
    (launched : ∀ status next, after = .notifying status next →
      ∃ outputs, collective.runCollective kernel = .ok (status, outputs))
    (written : ∀ output ∈ system'.outputs, ∃ run ∈ system'.runs, ∃ next,
      run.phase = .notifying .ok next ∧ output.1 ∈ run.collective.ids) : Inv kernel system' := by
  refine ⟨?_, ?_, ?_, ?_, told, ?_, written⟩
  · rw [advanced.manager]
    exact inv.statusOk
  · rw [advanced.calls]
    exact inv.positive
  · intro key
    rw [advanced.manager, (advanced.under key).1]
    exact inv.assembling key
  · intro key
    rw [(advanced.under key).1, (advanced.under key).2]
    exact inv.taken key
  · intro run listed status next isNotifying
    rcases advanced.mem listed with old | rfl
    · exact inv.launched run old status next isNotifying
    · exact launched status next isNotifying

theorem Inv.group {run : Run α} (listed : run ∈ system.runs) :
    ∃ key, ∃ group ∈ (groupsOf (system.under key)).closed, build group = some run.collective := by
  refine ⟨run.collective.collectiveKey, ?_⟩
  have ran : run.collective ∈ system.ranUnder run.collective.collectiveKey :=
    List.mem_filter.2 ⟨List.mem_map_of_mem listed, by simp⟩
  have mapped := List.mem_map_of_mem (f := some) ran
  rw [inv.taken] at mapped
  exact List.mem_map.1 mapped

theorem Inv.launch (launched : system.launch kernel index = .ok system') : Inv kernel system' := by
  unfold System.launch at launched
  split at launched
  · next collective found =>
    obtain ⟨⟨status, outputs⟩, ran, returned⟩ := bind_ok.1 launched
    cases returned
    have advanced : Advanced system collective .ready (.notifying status 0) { system with
        runs := system.runs.set index ⟨collective, .notifying status 0⟩
        outputs := system.outputs ++ outputs } := advanced_set found rfl rfl rfl
    obtain ⟨key, group, -, builds⟩ := inv.group (List.mem_of_getElem? found)
    obtain ⟨-, silent, own⟩ :=
      Collective.runCollective_facts (built_of_build builds).type ran
    apply inv.advanced advanced
    · obtain ⟨front, back, was, is⟩ := advanced.runs
      rw [is]
      have told := inv.told
      rw [was] at told
      simpa [Run.told] using told
    · intro status' next same
      cases same
      exact ⟨outputs, ran⟩
    · intro output listed
      rcases List.mem_append.1 listed with old | isNew
      · obtain ⟨run, ranOld, next, isNotifying, inIds⟩ := inv.written output old
        rcases advanced.kept ranOld with kept | rfl
        · exact ⟨run, kept, next, isNotifying, inIds⟩
        · cases isNotifying
      · have isOk : status = .ok := by
          by_contra failed
          rw [silent failed] at isNew
          cases isNew
        obtain ⟨participant, joined, same⟩ := own output isNew
        obtain ⟨front, back, was, is⟩ := advanced.runs
        refine ⟨⟨collective, .notifying status 0⟩, ?_, 0, by rw [isOk], ?_⟩
        · rw [is]
          simp
        · exact List.mem_map.2 ⟨participant, joined, same⟩
  · cases launched

theorem Inv.notify (notified : system.notify index = .ok system') : Inv kernel system' := by
  unfold System.notify at notified
  split at notified
  · next collective status next found =>
    split at notified
    · split at notified
      · next participant isNext =>
        cases notified
        have advanced : Advanced system collective (.notifying status next)
            (.notifying status (next + 1)) { system with
              runs := system.runs.set index ⟨collective, .notifying status (next + 1)⟩
              callbacks := system.callbacks ++ [(participant.id, status)] } :=
          advanced_set found rfl rfl rfl
        apply inv.advanced advanced
        · obtain ⟨front, back, was, is⟩ := advanced.runs
          have more : Run.told ⟨collective, .notifying status (next + 1)⟩ =
              Run.told ⟨collective, .notifying status next⟩ ++ [(participant.id, status)] := by
            simp only [Run.told, List.take_add_one, isNext, Option.toList_some, List.map_append,
              List.map_cons, List.map_nil]
          have told := inv.told
          rw [was] at told
          rw [is]
          simp only [List.flatMap_append, List.flatMap_cons, more] at told ⊢
          -- The new callback moves past the callbacks of later runs.
          calc system.callbacks ++ [(participant.id, status)]
              |>.Perm ((front.flatMap Run.told ++ (Run.told ⟨collective, .notifying status next⟩ ++
                back.flatMap Run.told)) ++ [(participant.id, status)]) := told.append_right _
            _ |>.Perm (front.flatMap Run.told ++ ((Run.told ⟨collective, .notifying status next⟩ ++
                [(participant.id, status)]) ++ back.flatMap Run.told)) := by
                simp only [List.append_assoc]
                exact ((List.perm_append_comm).append_left _).append_left _
        · intro status' next' same
          cases same
          exact inv.launched _ (List.mem_of_getElem? found) status next rfl
        · intro output listed
          obtain ⟨run, ranOld, next', isNotifying, inIds⟩ := inv.written output listed
          rcases advanced.kept ranOld with kept | rfl
          · exact ⟨run, kept, next', isNotifying, inIds⟩
          · cases isNotifying
            obtain ⟨front, back, was, is⟩ := advanced.runs
            refine ⟨⟨collective, .notifying .ok (next + 1)⟩, ?_, next + 1, rfl, inIds⟩
            rw [is]
            simp
      · cases notified
    · cases notified
  · cases notified

theorem Inv.step {event : Event α}
    (taken : System.step kernel system event = .ok system') : Inv kernel system' := by
  cases event with
  | add call =>
    simp only [System.step] at taken
    split at taken
    · next positive =>
      cases taken
      exact inv.added (added_add inv.statusOk call) positive
    · cases taken
  | launch index => exact inv.launch taken
  | notify index => exact inv.notify taken

end

theorem inv_of_reachable (reachable : Reachable kernel system) : Inv kernel system := by
  induction reachable with
  | start => exact inv_start
  | step _ taken ih => exact ih.step taken

/-! ## Nothing is lost or mixed -/

theorem Inv.ids_ran (inv : Inv kernel system) (key : String) : (system.ranUnder key).map Collective.ids =
      (groupsOf (system.under key)).closed.map (List.map Prod.snd) := by
  have taken := inv.taken key
  generalize system.ranUnder key = collectives at taken
  generalize (groupsOf (system.under key)).closed = groups at taken
  induction collectives generalizing groups with
  | nil =>
    cases groups with
    | nil => rfl
    | cons group groups => cases taken
  | cons collective collectives ih =>
    cases groups with
    | nil => cases taken
    | cons group groups =>
      obtain ⟨builds, rest⟩ := List.cons.inj taken
      rw [List.map_cons, List.map_cons, ih groups rest, (built_of_build builds.symm).ids]

theorem Inv.ids_waiting (inv : Inv kernel system) (key : String) :
    system.waiting key = (groupsOf (system.under key)).current.map Prod.snd := by
  unfold waiting
  rw [inv.assembling]
  cases builds : build (groupsOf (system.under key)).current with
  | some collective => exact (built_of_build builds).ids
  | none =>
    cases empty : (groupsOf (system.under key)).current with
    | nil => rfl
    | cons first rest =>
      rw [empty] at builds
      cases builds

theorem nodup_under (system : System α) (key : String) : ((system.under key).map Prod.snd).Nodup := by
  have numbers : (system.calls.zipIdx.map Prod.snd).Nodup := by
    rw [List.zipIdx_map_snd]
    exact List.nodup_range'
  exact numbers.sublist (List.filter_sublist.map Prod.snd)

section

variable (inv : Inv kernel system)

include inv

theorem Inv.key_of_id (listed : i ∈ (groupsOf (system.under key)).closed.flatten.map Prod.snd ∨
      i ∈ system.waiting key) : ∃ call, (call, i) ∈ system.under key := by
  have member : i ∈ (system.under key).map Prod.snd := by
    rw [(inv.cut key).whole, List.map_append, List.mem_append]
    rcases listed with ran | waits
    · exact Or.inl ran
    · rw [inv.ids_waiting] at waits
      exact Or.inr waits
  obtain ⟨⟨call, j⟩, isMember, rfl⟩ := List.mem_map.1 member
  exact ⟨call, isMember⟩

theorem Inv.key_of_run {run : Run α} (listed : run ∈ system.runs)
    (inIds : i ∈ run.collective.ids) : ∃ call, (call, i) ∈ system.under run.collective.collectiveKey := by
  apply inv.key_of_id
  left
  rw [List.map_flatten, ← inv.ids_ran, List.mem_flatten]
  refine ⟨_, List.mem_map_of_mem (List.mem_filter.2 ⟨List.mem_map_of_mem listed, ?_⟩), inIds⟩
  exact beq_self_eq_true _

theorem Inv.count_under {call : Call α} (made : system.calls[i]? = some call) :
    (system.waiting call.context.collectiveKey).count i +
      (system.runs.flatMap fun run => run.collective.ids).count i = 1 := by
  have isMember : (call, i) ∈ system.under call.context.collectiveKey := by
    refine List.mem_filter.2 ⟨?_, beq_self_eq_true _⟩
    rw [List.mem_zipIdx_iff_getElem?]
    simpa using made
  have once : ((system.under call.context.collectiveKey).map Prod.snd).count i = 1 :=
    List.count_eq_one_of_mem (nodup_under system _) (List.mem_map_of_mem isMember)
  -- Collectives of other keys do not hold the call.
  have own : (system.runs.flatMap fun run => run.collective.ids).count i =
      ((system.ranUnder call.context.collectiveKey).map Collective.ids).flatten.count i := by
    have inRuns : (system.runs.flatMap fun run => run.collective.ids) =
        (system.runs.map Run.collective).flatMap Collective.ids := by
      rw [List.flatMap_map]
    rw [inRuns, ← List.flatMap_def]
    apply count_flatMap_filter
    intro collective ran otherKey inIds
    obtain ⟨run, listed, rfl⟩ := List.mem_map.1 ran
    obtain ⟨other, otherMember⟩ := inv.key_of_run listed inIds
    have same := under_call otherMember
    rw [made] at same
    cases same
    rw [beq_eq_false_iff_ne] at otherKey
    exact otherKey (under_key otherMember).symm
  rw [own, inv.ids_ran, inv.ids_waiting]
  rw [(inv.cut call.context.collectiveKey).whole, List.map_append, List.count_append, List.map_flatten] at once
  omega

theorem Inv.count_told (i : Nat) : (system.callbacks.map Prod.fst).count i + (system.runs.flatMap Run.held).count i =
      (system.runs.flatMap fun run => run.collective.ids).count i := by
  rw [(inv.told.map Prod.fst).count_eq]
  induction system.runs with
  | nil => rfl
  | cons run runs ih =>
    simp only [List.flatMap_cons, List.map_append, List.count_append] at ih ⊢
    rw [← run.told_append_held, List.count_append]
    omega

theorem Inv.run_unique {run run' : Run α} (listed : run ∈ system.runs)
    (listed' : run' ∈ system.runs) (inIds : i ∈ run.collective.ids)
    (inIds' : i ∈ run'.collective.ids) : run = run' := by
  by_contra ne
  obtain ⟨call, isMember⟩ := inv.key_of_run listed inIds
  have made : system.calls[i]? = some call := under_call isMember
  have once := inv.count_under made
  have twice := two_le_count_flatMap (f := fun run : Run α => run.collective.ids) ne listed
    listed' inIds inIds'
  omega

theorem Inv.run_of_callback {status : Status}
    (called : (i, status) ∈ system.callbacks) : ∃ run ∈ system.runs, ∃ next,
      run.phase = .notifying status next ∧ i ∈ run.collective.ids := by
  obtain ⟨run, listed, inTold⟩ := List.mem_flatMap.1 (inv.told.mem_iff.1 called)
  unfold Run.told at inTold
  split at inTold
  · cases inTold
  · next status' next isNotifying =>
    obtain ⟨participant, isNext, same⟩ := List.mem_map.1 inTold
    cases same
    exact ⟨run, listed, next, isNotifying, List.mem_map.2 ⟨participant, List.mem_of_mem_take isNext, rfl⟩⟩

end

/-- Two calls gave the same data type, reduction, device count and number of
elements. -/
def Alike (call other : Call α) : Prop :=
  call.input.dtype = other.input.dtype ∧ call.reductionOp = other.reductionOp ∧
    call.context.numLocalDevices = other.context.numLocalDevices ∧
    call.input.numElements = other.input.numElements

theorem Inv.alike (inv : Inv kernel system) {run : Run α} (listed : run ∈ system.runs) {next : Nat}
    (isNotifying : run.phase = .notifying .ok next) {j : Nat} {call other : Call α}
    (inIds : i ∈ run.collective.ids) (inIds' : j ∈ run.collective.ids)
    (made : system.calls[i]? = some call) (made' : system.calls[j]? = some other) : Alike call other := by
  obtain ⟨outputs, ran⟩ := inv.launched run listed .ok next isNotifying
  obtain ⟨key, group, closed, builds⟩ := inv.group listed
  have built := built_of_build builds
  obtain ⟨wasOk, -, -⟩ := Collective.runCollective_facts built.type ran
  obtain ⟨assembled, numElements, same⟩ := wasOk rfl
  -- Each of the two agrees with the collective.
  have each : ∀ k ∈ run.collective.ids, ∀ made, system.calls[k]? = some made →
      made.input.dtype = run.collective.dataType ∧ made.reductionOp = run.collective.reductionOp ∧
        made.context.numLocalDevices = run.collective.numLocalDevices ∧
        made.input.numElements = numElements := by
    intro k inIds made isMade
    rw [built.ids] at inIds
    obtain ⟨member, inGroup, rfl⟩ := List.mem_map.1 inIds
    have isMember : member ∈ system.under key := by
      rw [(inv.cut key).whole]
      exact List.mem_append_left _ (List.mem_flatten.2 ⟨group, closed, inGroup⟩)
    rw [under_call isMember] at isMade
    cases isMade
    obtain ⟨dataType, reductionOp, devices⟩ := built.agrees assembled member inGroup
    refine ⟨dataType, reductionOp, devices, same (Member.participant member) ?_⟩
    rw [built.participants]
    exact List.mem_map_of_mem inGroup
  obtain ⟨dataType, reductionOp, devices, elements⟩ := each i inIds call made
  obtain ⟨dataType', reductionOp', devices', elements'⟩ := each j inIds' other made'
  exact ⟨dataType.trans dataType'.symm, reductionOp.trans reductionOp'.symm,
    devices.trans devices'.symm, elements.trans elements'.symm⟩

/-- No participant is lost or mixed up, and every collective tells all its
participants the same. -/
structure Delivered (system : System α) : Prop where
  /-- A call waits under its key, is held by the call that took its collective
  out of the map, or has had its callback called: one of them, and once. -/
  placed : ∀ i call, system.calls[i]? = some call →
    (system.waiting call.context.collectiveKey).count i + (system.runs.flatMap Run.held).count i +
      (system.callbacks.map Prod.fst).count i = 1
  /-- It does not wait under another key. -/
  elsewhere : ∀ i call, system.calls[i]? = some call → ∀ key, key ≠ call.context.collectiveKey →
    i ∉ system.waiting key
  /-- The collectives that left the map under a key, and the one in the map, cut
  the calls made under the key: the former have as many participants as their
  first call asked for, the latter has fewer. -/
  cut : ∀ key, (groupsOf (system.under key)).Cut (system.under key)
  ran : ∀ key, (system.ranUnder key).map Collective.ids = (groupsOf (system.under key)).closed.map (List.map Prod.snd)
  waits : ∀ key, system.waiting key = (groupsOf (system.under key)).current.map Prod.snd
  sameStatus : ∀ run ∈ system.runs, ∀ i ∈ run.collective.ids, ∀ j ∈ run.collective.ids,
    ∀ status other, (i, status) ∈ system.callbacks → (j, other) ∈ system.callbacks → status = other
  alike : ∀ run ∈ system.runs, ∀ i ∈ run.collective.ids, ∀ j ∈ run.collective.ids,
    (i, Status.ok) ∈ system.callbacks → ∀ call other, system.calls[i]? = some call →
      system.calls[j]? = some other → Alike call other
  /-- A participant whose output was written belongs to a collective that ends
  OK. -/
  written : ∀ run ∈ system.runs, ∀ i ∈ run.collective.ids, ∀ values,
    (i, values) ∈ system.outputs → ∃ next, run.phase = .notifying .ok next

theorem reachable_foldlM {events : List (Event α)} (reachable : Reachable kernel system)
    (done : events.foldlM (System.step kernel) system = .ok system') : Reachable kernel system' := by
  induction events generalizing system with
  | nil =>
    cases done
    exact reachable
  | cons event events ih =>
    rw [List.foldlM_cons] at done
    obtain ⟨middle, taken, rest⟩ := bind_ok.1 done
    exact ih (.step reachable taken) rest

theorem reachable_run {events : List (Event α)} (done : run kernel events = .ok system) : Reachable kernel system :=
  reachable_foldlM .start done

def sumKernel : Kernel Nat := fun _ _ inputs =>
  match inputs with
  | [] => []
  | first :: rest => rest.foldl (List.zipWith (· + ·)) first

/-- One element of type `int32`, to be summed over this many devices. -/
def sampleCall (devices value : Nat) : Call Nat where
  gpuDeviceId := 0
  input := ⟨.int32, [value]⟩
  context := ⟨"sum", devices, -1⟩
  reductionOp := .sum

end System

end Itex.Collectives
