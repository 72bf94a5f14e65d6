import Mathlib

/-!
Contract: an iterative depth-first traversal that lists nodes in the order in which
they are finished.

Owns: the loop, which notes an edge to a node that is being processed; that it ends; and
that in the finishing order a neighbour comes before its node unless the noted edge
closes a cycle.

A node may be on the stack more than once. The loop runs on fuel; `budget` is enough.
-/

namespace Itex.Lib.PostOrder

open Relation

variable {ν : Type}

inductive Mark where
  | pending
  | processing
  | processed
deriving DecidableEq, Repr

/-- The loop's variables. An entry of the stack is a node and whether it is to be left;
the head is the top. -/
structure Config (ν : Type) where
  stack : List (ν × Bool) := []
  mark : ν → Mark
  finished : List ν := []
  back : List (ν × ν) := []

section Definitions

variable (next : ν → List ν)

/-- Turns enough for a traversal from one root. -/
def budget (nodes : List ν) : Nat := 1 + (nodes.map fun v => 1 + (next v).length).sum

def push (current : ν) (config : Config ν) (neighbour : ν) : Config ν :=
  match config.mark neighbour with
  | .processing => { config with back := config.back ++ [(current, neighbour)] }
  | .pending => { config with stack := (neighbour, false) :: config.stack }
  | .processed => config

variable [DecidableEq ν]

/-- One turn, for the popped entry. -/
def visit (config : Config ν) (entry : ν × Bool) (rest : List (ν × Bool)) : Config ν :=
  if config.mark entry.1 = .processed then { config with stack := rest }
  else if entry.2 then
    { config with
      stack := rest
      mark := Function.update config.mark entry.1 .processed
      finished := config.finished ++ [entry.1] }
  else
    (next entry.1).foldl (push entry.1)
      { config with
        stack := (entry.1, true) :: rest
        mark := Function.update config.mark entry.1 .processing }

/-- The loop, for at most `fuel` turns. -/
def loop : Nat → Config ν → Config ν
  | 0, config => config
  | fuel + 1, config =>
    match config.stack with
    | [] => config
    | entry :: rest => loop fuel (visit next config entry rest)

def traverse (fuel : Nat) (config : Config ν) (root : ν) : Config ν :=
  if config.mark root = .pending then loop next fuel { config with stack := [(root, false)] }
  else config

end Definitions

/-- Entries for the pending neighbours go on the stack; edges to nodes that are being
processed are noted. -/
theorem foldl_push (current : ν) (neighbours : List ν) (config : Config ν) : neighbours.foldl (push current) config =
      { config with
        stack := ((neighbours.filter fun w => config.mark w = .pending).reverse.map fun w =>
          (w, false)) ++ config.stack
        back := config.back ++ (neighbours.filter fun w => config.mark w = .processing).map fun w =>
          (current, w) } := by
  induction neighbours generalizing config with
  | nil => simp
  | cons head tail ih =>
    rw [List.foldl_cons, ih]
    cases marked : config.mark head <;> simp [push, marked]

def Edge (next : ν → List ν) (u v : ν) : Prop := v ∈ next u

/-- The node of the topmost entry that is to be left. -/
def nearestExit (stack : List (ν × Bool)) : Option ν := (stack.find? fun entry => entry.2).map Prod.fst

structure Inv [DecidableEq ν] (next : ν → List ν) (config : Config ν) : Prop where
  exits : ∀ v, (v, true) ∈ config.stack ↔ config.mark v = .processing
  exitsOnce : (config.stack.filter fun entry => entry.2).Nodup
  enters : ∀ top v rest, config.stack = top ++ (v, false) :: rest → config.mark v = .processing → (v, true) ∈ top
  finished : ∀ v, v ∈ config.finished ↔ config.mark v = .processed
  once : config.finished.Nodup
  /-- An entry was pushed for an edge from the node below it that is being processed. -/
  pushed : ∀ top entry rest u, config.stack = top ++ entry :: rest → nearestExit rest = some u → entry.1 ∈ next u
  /-- A neighbour of a node that is being processed is done, noted, or above it. -/
  waiting : ∀ top u rest, config.stack = top ++ (u, true) :: rest → ∀ v ∈ next u,
    config.mark v = .processed ∨ (u, v) ∈ config.back ∨ ∃ leaving, (v, leaving) ∈ top
  before : ∀ u ∈ config.finished, ∀ v ∈ next u,
    v ∈ config.finished ∧ config.finished.idxOf v < config.finished.idxOf u ∨ (u, v) ∈ config.back
  cycles : ∀ u v, (u, v) ∈ config.back → v ∈ next u ∧ config.mark u ≠ .pending ∧ config.mark v ≠ .pending ∧
      ReflTransGen (Edge next) v u

theorem reaches_of_below {next : ν → List ν} {x : ν} : ∀ {rest : List (ν × Bool)} {entry : ν × Bool},
      (∀ u, nearestExit rest = some u → entry.1 ∈ next u) →
      (∀ top other below u, rest = top ++ other :: below → nearestExit below = some u → other.1 ∈ next u) →
      (x, true) ∈ rest → ReflTransGen (Edge next) x entry.1 := by
  intro rest
  induction rest with
  | nil =>
    intro entry _ _ mem
    cases mem
  | cons head below ih =>
    intro entry own others mem
    have inner : ∀ top other belowOther u, below = top ++ other :: belowOther →
        nearestExit belowOther = some u → other.1 ∈ next u := by
      intro top other belowOther u split
      exact others (head :: top) other belowOther u (by rw [split, List.cons_append])
    obtain ⟨node, leaving⟩ := head
    cases leaving with
    | true =>
      have edge : entry.1 ∈ next node := own node rfl
      rcases List.mem_cons.1 mem with isHead | deeper
      · cases isHead
        exact .single edge
      · have toNode := ih (others [] (node, true) below · rfl) inner deeper
        exact toNode.tail edge
    | false =>
      have deeper : (x, true) ∈ below := by
        rcases List.mem_cons.1 mem with isHead | deeper
        · cases isHead
        · exact deeper
      exact ih (fun u nearest => own u nearest) inner deeper

theorem append_eq_split {α : Type} {left right top below : List α} {entry : α}
    (split : left ++ right = top ++ entry :: below) : (∃ mid, left = top ++ entry :: mid ∧ below = mid ++ right) ∨
      ∃ mid, top = left ++ mid ∧ right = mid ++ entry :: below := by
  rcases List.append_eq_append_iff.1 split with ⟨mid, atTop, atRight⟩ | ⟨mid, atLeft, atBelow⟩
  · exact .inr ⟨mid, atTop, atRight⟩
  · cases mid with
    | nil =>
      rw [List.nil_append] at atBelow
      exact .inr ⟨[], by rw [atLeft, List.append_nil, List.append_nil], by rw [← atBelow, List.nil_append]⟩
    | cons head tail =>
      rw [List.cons_append] at atBelow
      cases atBelow
      exact .inl ⟨tail, atLeft, rfl⟩

/-- Above the new exit there are entries for pending neighbours only. -/
theorem nearestExit_enters (ws : List ν) (v : ν) (rest : List (ν × Bool)) :
    nearestExit ((ws.map fun w => (w, false)) ++ (v, true) :: rest) = some v := by
  induction ws with
  | nil => rfl
  | cons head tail ih => exact ih

section Visit

variable [DecidableEq ν] {next : ν → List ν} {config : Config ν} {v : ν} {rest : List (ν × Bool)}

theorem Inv.skip {leaving : Bool} (holds : Inv next config)
    (atTop : config.stack = (v, leaving) :: rest) (processed : config.mark v = .processed) :
    Inv next { config with stack := rest } := by
  have notExit : leaving = false := by
    cases leaving with
    | false => rfl
    | true =>
      have processing := (holds.exits v).1 (by rw [atTop]; exact List.mem_cons_self)
      rw [processed] at processing
      cases processing
  subst notExit
  have deeper : ∀ {top entry below}, rest = top ++ entry :: below →
      config.stack = ((v, false) :: top) ++ entry :: below := by
    intro top entry below split
    rw [atTop, split, List.cons_append]
  refine
    { exits := ?_
      exitsOnce := ?_
      enters := ?_
      finished := holds.finished
      once := holds.once
      pushed := fun top entry below u split => holds.pushed _ entry below u (deeper split)
      waiting := ?_
      before := holds.before
      cycles := holds.cycles }
  · intro w
    rw [← holds.exits w, atTop]
    simp
  · have once := holds.exitsOnce
    rw [atTop] at once
    exact once
  · intro top w below split processing
    have above := holds.enters _ w below (deeper split) processing
    simpa using above
  · intro top u below split w edge
    rcases holds.waiting _ u below (deeper split) w edge with done | noted | ⟨leaving, above⟩
    · exact .inl done
    · exact .inr (.inl noted)
    · rcases List.mem_cons.1 above with isTop | above
      · cases isTop
        exact .inl processed
      · exact .inr (.inr ⟨leaving, above⟩)

theorem Inv.exit (holds : Inv next config) (atTop : config.stack = (v, true) :: rest) : Inv next { config with
      stack := rest
      mark := Function.update config.mark v .processed
      finished := config.finished ++ [v] } := by
  have processing : config.mark v = .processing :=
    (holds.exits v).1 (by rw [atTop]; exact List.mem_cons_self)
  have notFinished : v ∉ config.finished := by
    rw [holds.finished, processing]
    simp
  have onceMore : (v, true) ∉ rest := by
    have once := holds.exitsOnce
    rw [atTop, List.filter_cons_of_pos rfl, List.nodup_cons] at once
    exact fun mem => once.1 (List.mem_filter.2 ⟨mem, rfl⟩)
  have deeper : ∀ {top entry below}, rest = top ++ entry :: below →
      config.stack = ((v, true) :: top) ++ entry :: below := by
    intro top entry below split
    rw [atTop, split, List.cons_append]
  -- Marks other than that of `v` stay.
  have markOf : ∀ {w : ν}, w ≠ v → Function.update config.mark v .processed w = config.mark w :=
    fun other => Function.update_of_ne other _ _
  have notPending : ∀ w, config.mark w ≠ .pending → Function.update config.mark v .processed w ≠ .pending := by
    intro w started
    by_cases same : w = v
    · rw [same, Function.update_self]
      simp
    · rw [markOf same]
      exact started
  refine
    { exits := ?_
      exitsOnce := ?_
      enters := ?_
      finished := ?_
      once := ?_
      pushed := fun top entry below u split => holds.pushed _ entry below u (deeper split)
      waiting := ?_
      before := ?_
      cycles := fun u w noted => ?_ }
  · intro w
    show (w, true) ∈ rest ↔ Function.update config.mark v .processed w = .processing
    by_cases same : w = v
    · rw [same, Function.update_self]
      simp [onceMore]
    · rw [markOf same, ← holds.exits w, atTop]
      simp [same]
  · have once := holds.exitsOnce
    rw [atTop, List.filter_cons_of_pos rfl] at once
    exact once.of_cons
  · intro top w below split still
    by_cases same : w = v
    · rw [same] at still
      simp at still
    · have marked : config.mark w = .processing := by
        rw [← markOf same]
        exact still
      have above := holds.enters _ w below (deeper split) marked
      simpa [same] using above
  · intro w
    show w ∈ config.finished ++ [v] ↔ Function.update config.mark v .processed w = .processed
    by_cases same : w = v
    · rw [same, Function.update_self]
      simp
    · rw [markOf same, ← holds.finished w]
      simp [same]
  · exact holds.once.append (List.nodup_singleton v) (by simpa using notFinished)
  · intro top u below split w edge
    show Function.update config.mark v .processed w = .processed ∨ _
    by_cases same : w = v
    · left
      rw [same, Function.update_self]
    · rw [markOf same]
      rcases holds.waiting _ u below (deeper split) w edge with done | noted | ⟨leaving, above⟩
      · exact .inl done
      · exact .inr (.inl noted)
      · right; right
        refine ⟨leaving, ?_⟩
        rcases List.mem_cons.1 above with isTop | above
        · exact absurd (congrArg Prod.fst isTop) same
        · exact above
  · intro u mem w edge
    show w ∈ config.finished ++ [v] ∧ (config.finished ++ [v]).idxOf w < (config.finished ++ [v]).idxOf u ∨ _
    rcases List.mem_append.1 mem with earlier | isLast
    · rcases holds.before u earlier w edge with ⟨done, order⟩ | noted
      · left
        refine ⟨List.mem_append_left _ done, ?_⟩
        rw [List.idxOf_append_of_mem done, List.idxOf_append_of_mem earlier]
        exact order
      · exact .inr noted
    · have isV : u = v := List.mem_singleton.1 isLast
      subst isV
      rcases holds.waiting [] u rest atTop w edge with done | noted | ⟨_, above⟩
      · have doneBefore := (holds.finished w).2 done
        grind
      · exact .inr noted
      · cases above
  · obtain ⟨edge, startedU, startedW, path⟩ := holds.cycles u w noted
    exact ⟨edge, notPending u startedU, notPending w startedW, path⟩

theorem Inv.pending_of_top (holds : Inv next config) (atTop : config.stack = (v, false) :: rest)
    (open_ : config.mark v ≠ .processed) : config.mark v = .pending := by
  cases marked : config.mark v with
  | pending => rfl
  | processing => exact absurd (holds.enters [] v rest atTop marked) List.not_mem_nil
  | processed => exact absurd marked open_

theorem Inv.enter (holds : Inv next config) (atTop : config.stack = (v, false) :: rest)
    (open_ : config.mark v ≠ .processed) :
    Inv next ((next v).foldl (push v) { config with
      stack := (v, true) :: rest
      mark := Function.update config.mark v .processing }) := by
  have pending := holds.pending_of_top atTop open_
  have notLeaving : (v, true) ∉ rest := by
    intro mem
    have processing := (holds.exits v).1 (by rw [atTop]; exact List.mem_cons_of_mem _ mem)
    rw [pending] at processing
    cases processing
  have notFinished : v ∉ config.finished := by
    rw [holds.finished, pending]
    simp
  have deeper : ∀ {top entry below}, rest = top ++ entry :: below →
      config.stack = ((v, false) :: top) ++ entry :: below := by
    intro top entry below split
    rw [atTop, split, List.cons_append]
  rw [foldl_push]
  dsimp only
  have markOf : ∀ {w : ν}, w ≠ v → Function.update config.mark v .processing w = config.mark w :=
    fun other => Function.update_of_ne other _ _
  have markSelf : Function.update config.mark v .processing v = .processing :=
    Function.update_self ..
  generalize marks : Function.update config.mark v .processing = mark at markOf markSelf
  generalize opened : ((next v).filter fun w => mark w = .pending).reverse = ws
  generalize notes : ((next v).filter fun w => mark w = .processing) = us
  have memberOf : ∀ {w : ν}, w ∈ ws ↔ w ∈ next v ∧ mark w = .pending := by
    intro w
    rw [← opened]
    simp
  have notedOf : ∀ {w : ν}, w ∈ us ↔ w ∈ next v ∧ mark w = .processing := by
    intro w
    rw [← notes]
    simp
  have notPending : ∀ w, config.mark w ≠ .pending → mark w ≠ .pending := by
    intro w started
    by_cases same : w = v
    · rw [same, markSelf]
      simp
    · rw [markOf same]
      exact started
  have processedOf : ∀ w, mark w = .processed ↔ config.mark w = .processed := by
    intro w
    by_cases same : w = v
    · rw [same, markSelf, pending]
      simp
    · rw [markOf same]
  -- The nodes below `v` that are being processed reach it.
  have reaches : ∀ w, mark w = .processing → ReflTransGen (Edge next) w v := by
    intro w processing
    by_cases same : w = v
    · rw [same]
    · rw [markOf same, ← holds.exits w, atTop] at processing
      have below : (w, true) ∈ rest := by simpa using processing
      have own : ∀ u, nearestExit rest = some u → (v, false).1 ∈ next u :=
        fun u => holds.pushed [] (v, false) rest u atTop
      exact reaches_of_below own
        (fun top other below u split => holds.pushed _ other below u (deeper split)) below
  refine
    { exits := ?_
      exitsOnce := ?_
      enters := ?_
      finished := fun w => (holds.finished w).trans (processedOf w).symm
      once := holds.once
      pushed := ?_
      waiting := ?_
      before := ?_
      cycles := ?_ }
  · intro w
    dsimp only
    by_cases same : w = v
    · rw [same, markSelf]
      simp
    · rw [markOf same, ← holds.exits w, atTop]
      simp [same]
  · have once := holds.exitsOnce
    grind
  · intro top w below split processing
    dsimp only at split processing
    rcases append_eq_split split with ⟨mid, atLeft, -⟩ | ⟨mid, atLeft, atRight⟩
    · -- An entry that was just pushed is for a pending node.
      have pushedNow : (w, false) ∈ ws.map fun w => (w, false) := by
        rw [atLeft]
        simp
      have isPending : w ∈ ws := by simpa using pushedNow
      rw [memberOf, processing] at isPending
      cases isPending.2
    · cases mid with
      | nil => cases atRight
      | cons head tail =>
        cases atRight
        rw [atLeft]
        by_cases same : w = v
        · rw [same]
          simp
        · rw [markOf same] at processing
          have above := holds.enters _ w below (deeper rfl) processing
          have inTail : (w, true) ∈ tail := by simpa using above
          simp [inTail]
  · intro top entry below u split nearest
    rcases append_eq_split split with ⟨mid, atLeft, atBelow⟩ | ⟨mid, atLeft, atRight⟩
    · obtain ⟨kept, others, whole, -, mids⟩ := List.map_eq_append_iff.1 atLeft
      obtain ⟨w, tail, isOthers, isEntry, isMid⟩ := List.map_eq_cons_iff.1 mids
      rw [atBelow, ← isMid, nearestExit_enters] at nearest
      cases nearest
      rw [← isEntry]
      have opened : w ∈ ws := by simp [whole, isOthers]
      exact (memberOf.1 opened).1
    · cases mid with
      | nil =>
        cases atRight
        exact holds.pushed [] (v, false) rest u atTop nearest
      | cons head tail =>
        cases atRight
        exact holds.pushed _ entry below u (deeper rfl) nearest
  · intro top u below split w edge
    dsimp only at split ⊢
    rcases append_eq_split split with ⟨mid, atLeft, -⟩ | ⟨mid, atLeft, atRight⟩
    · have pushedNow : (u, true) ∈ ws.map fun w => (w, false) := by
        rw [atLeft]
        simp
      simp at pushedNow
    · cases mid with
      | nil =>
        cases atRight
        rw [List.append_nil] at atLeft
        rw [atLeft]
        cases marked : mark w with
        | pending => exact .inr (.inr ⟨false, List.mem_map_of_mem (memberOf.2 ⟨edge, marked⟩)⟩)
        | processing =>
          exact .inr (.inl (List.mem_append_right _ (List.mem_map_of_mem (notedOf.2 ⟨edge, marked⟩))))
        | processed => exact .inl rfl
      | cons head tail =>
        cases atRight
        rcases holds.waiting _ u below (deeper rfl) w edge with done | noted | ⟨leaving, above⟩
        · exact .inl ((processedOf w).2 done)
        · exact .inr (.inl (List.mem_append_left _ noted))
        · right; right
          rw [atLeft]
          rcases List.mem_cons.1 above with isTop | above
          · cases isTop
            exact ⟨true, by simp⟩
          · exact ⟨leaving, by simp [above]⟩
  · intro u mem w edge
    rcases holds.before u mem w edge with done | noted
    · exact .inl done
    · exact .inr (List.mem_append_left _ noted)
  · intro u w noted
    rcases List.mem_append.1 noted with earlier | now
    · obtain ⟨edge, startedU, startedW, path⟩ := holds.cycles u w earlier
      exact ⟨edge, notPending u startedU, notPending w startedW, path⟩
    · grind

theorem Inv.visit {entry : ν × Bool} (holds : Inv next config)
    (atTop : config.stack = entry :: rest) : Inv next (visit next config entry rest) := by
  obtain ⟨v, leaving⟩ := entry
  unfold PostOrder.visit
  by_cases processed : config.mark v = .processed
  · rw [if_pos processed]
    exact holds.skip atTop processed
  · rw [if_neg processed]
    cases leaving with
    | true => exact holds.exit atTop
    | false => exact holds.enter atTop processed

theorem Inv.loop (holds : Inv next config) (fuel : Nat) : Inv next (loop next fuel config) := by
  induction fuel generalizing config with
  | zero => exact holds
  | succ fuel ih =>
    unfold PostOrder.loop
    split
    · exact holds
    next entry rest atTop => exact ih (holds.visit atTop)

/-- Between two traversals nothing is on the stack, so nothing is being processed. -/
theorem Inv.start (holds : Inv next config) (idle : config.stack = []) (root : ν) :
    Inv next { config with stack := [(root, false)] } := by
  have noneOpen : ∀ w, config.mark w ≠ .processing := by
    intro w processing
    have mem := (holds.exits w).2 processing
    rw [idle] at mem
    cases mem
  have single : ∀ {top : List (ν × Bool)} {entry : ν × Bool} {below},
      [(root, false)] = top ++ entry :: below → top = [] ∧ entry = (root, false) ∧ below = [] := by
    intro top entry below split
    cases top with
    | nil =>
      cases split
      exact ⟨rfl, rfl, rfl⟩
    | cons head tail => simp at split
  refine
    { exits := ?_
      exitsOnce := by simp
      enters := ?_
      finished := holds.finished
      once := holds.once
      pushed := ?_
      waiting := ?_
      before := holds.before
      cycles := holds.cycles }
  · intro w
    simp [noneOpen w]
  · intro top w below _ processing
    exact absurd processing (noneOpen w)
  · intro top entry below u split nearest
    obtain ⟨-, -, isEmpty⟩ := single split
    rw [isEmpty] at nearest
    cases nearest
  · intro top u below split
    obtain ⟨-, isEntry, -⟩ := single split
    cases isEntry

end Visit

/-! ## The loop ends -/

/-- Entries that a pending node may bring. -/
def weight (next : ν → List ν) (mark : ν → Mark) (v : ν) : Nat :=
  if mark v = .pending then 1 + (next v).length else 0

/-- Turns that are still possible. -/
def potential (next : ν → List ν) (nodes : List ν) (config : Config ν) : Nat :=
  config.stack.length + (nodes.map (weight next config.mark)).sum

section Termination

variable {next : ν → List ν} {nodes : List ν}

theorem sum_map_add_le {f g : ν → Nat} {v : ν} {amount : Nat} (listed : v ∈ nodes)
    (le : ∀ w, f w ≤ g w) (less : f v + amount ≤ g v) : (nodes.map f).sum + amount ≤ (nodes.map g).sum := by
  induction nodes with
  | nil => cases listed
  | cons head tail ih =>
    simp only [List.map_cons, List.sum_cons]
    rcases List.mem_cons.1 listed with isHead | inTail
    · have rest : (tail.map f).sum ≤ (tail.map g).sum := List.sum_le_sum fun w _ => le w
      subst isHead
      omega
    · have rest := ih inTail
      have here := le head
      omega

theorem potential_start (config : Config ν) (root : ν) :
    potential next nodes { config with stack := [(root, false)] } ≤ budget next nodes := by
  unfold potential budget
  apply Nat.add_le_add (Nat.le_refl 1)
  apply List.sum_le_sum
  intro v _
  unfold weight
  split
  · exact Nat.le_refl _
  · exact Nat.zero_le _

variable [DecidableEq ν] {config : Config ν} {v : ν} {rest : List (ν × Bool)}

theorem weight_update {mark : ν → Mark} {started : Mark} (notPending : started ≠ .pending) (w : ν) :
    weight next (Function.update mark v started) w = if w = v then 0 else weight next mark w := by
  unfold weight
  by_cases same : w = v
  · rw [same, Function.update_self, if_neg notPending, if_pos rfl]
  · rw [Function.update_of_ne same, if_neg same]

theorem weight_update_le {mark : ν → Mark} {started : Mark} (notPending : started ≠ .pending)
    (w : ν) : weight next (Function.update mark v started) w ≤ weight next mark w := by
  rw [weight_update notPending]
  split
  · exact Nat.zero_le _
  · exact Nat.le_refl _

theorem potential_visit {entry : ν × Bool} (holds : Inv next config)
    (atTop : config.stack = entry :: rest) (listed : entry.1 ∈ nodes) :
    potential next nodes (visit next config entry rest) < potential next nodes config := by
  obtain ⟨v, leaving⟩ := entry
  unfold visit potential
  rw [atTop, List.length_cons]
  by_cases processed : config.mark v = .processed
  · rw [if_pos processed]
    exact Nat.add_lt_add_right (Nat.lt_succ_self _) _
  · rw [if_neg processed]
    cases leaving with
    | true =>
      rw [if_pos rfl]
      exact Nat.add_lt_add_of_lt_of_le (Nat.lt_succ_self _)
        (List.sum_le_sum fun w _ => weight_update_le (by simp) w)
    | false =>
      have pending := holds.pending_of_top atTop processed
      have less : (nodes.map (weight next (Function.update config.mark v .processing))).sum +
          (1 + (next v).length) ≤ (nodes.map (weight next config.mark)).sum := by
        apply sum_map_add_le listed (weight_update_le (by simp))
        show weight next _ v + (1 + (next v).length) ≤ _
        rw [weight_update (by simp), if_pos rfl, Nat.zero_add]
        unfold weight
        rw [if_pos pending]
      have fewer := List.length_filter_le
        (fun w => decide (Function.update config.mark v .processing w = .pending)) (next v)
      rw [if_neg (by simp), foldl_push]
      dsimp only
      rw [List.length_append, List.length_map, List.length_reverse, List.length_cons]
      omega

/-- A node on the stack, or one that was. -/
def Met (config : Config ν) (v : ν) : Prop :=
  config.mark v ≠ .pending ∨ ∃ leaving, (v, leaving) ∈ config.stack

theorem met_visit {entry : ν × Bool} (atTop : config.stack = entry :: rest) (w : ν) :
    (Met config w → Met (visit next config entry rest) w) ∧
      (Met (visit next config entry rest) w → Met config w ∨ w ∈ next entry.1) := by
  obtain ⟨v, leaving⟩ := entry
  unfold visit Met
  rw [atTop]
  by_cases processed : config.mark v = .processed
  · grind
  · rw [if_neg processed]
    cases leaving with
    | true =>
      grind
    | false =>
      rw [if_neg (by simp), foldl_push]
      grind

structure Traversed (next : ν → List ν) (roots : List ν) (config : Config ν) : Prop where
  inv : Inv next config
  idle : config.stack = []
  processed : ∀ v, config.mark v = .processed ↔ ∃ root ∈ roots, ReflTransGen (Edge next) root v

theorem Inv.processed_of_idle (holds : Inv next config) (idle : config.stack = []) {v : ν}
    (started : config.mark v ≠ .pending) : config.mark v = .processed := by
  cases marked : config.mark v with
  | pending => exact absurd marked started
  | processing =>
    have mem := (holds.exits v).2 marked
    rw [idle] at mem
    cases mem
  | processed => rfl

theorem mem_stack_visit {entry other : ν × Bool} (mem : other ∈ (visit next config entry rest).stack) :
    other ∈ rest ∨ other.1 = entry.1 ∨ other.1 ∈ next entry.1 := by
  unfold visit at mem
  by_cases processed : config.mark entry.1 = .processed
  · rw [if_pos processed] at mem
    exact .inl mem
  · rw [if_neg processed] at mem
    by_cases leaving : entry.2 = true
    · rw [if_pos leaving] at mem
      exact .inl mem
    · rw [if_neg leaving, foldl_push] at mem
      grind

theorem loop_spec (closed : ∀ v ∈ nodes, ∀ w ∈ next v, w ∈ nodes) :
    ∀ (fuel : Nat) (config : Config ν), Inv next config → (∀ entry ∈ config.stack, entry.1 ∈ nodes) →
      potential next nodes config ≤ fuel →
      (loop next fuel config).stack = [] ∧ (∀ w, Met config w → Met (loop next fuel config) w) ∧
        ∀ w, Met (loop next fuel config) w → ∃ u, Met config u ∧ ReflTransGen (Edge next) u w := by
  intro fuel
  induction fuel with
  | zero =>
    intro config _ _ enough
    have isEmpty : config.stack = [] := by
      unfold potential at enough
      exact List.length_eq_zero_iff.1 (by omega)
    exact ⟨isEmpty, fun _ met => met, fun w met => ⟨w, met, .refl⟩⟩
  | succ fuel ih =>
    intro config holds listed enough
    unfold loop
    split
    next isEmpty => exact ⟨isEmpty, fun _ met => met, fun w met => ⟨w, met, .refl⟩⟩
    next entry rest atTop =>
      have entryListed : entry.1 ∈ nodes := listed entry (by rw [atTop]; exact List.mem_cons_self)
      have less := potential_visit holds atTop entryListed
      have listedAfter : ∀ other ∈ (visit next config entry rest).stack, other.1 ∈ nodes := by
        intro other mem
        rcases mem_stack_visit mem with below | isEntry | edge
        · exact listed other (by rw [atTop]; exact List.mem_cons_of_mem _ below)
        · rw [isEntry]
          exact entryListed
        · exact closed _ entryListed _ edge
      obtain ⟨isEmpty, kept, reached⟩ := ih _ (holds.visit atTop) listedAfter (by omega)
      refine ⟨isEmpty, fun w met => kept w ((met_visit atTop w).1 met), fun w met => ?_⟩
      obtain ⟨u, metU, path⟩ := reached w met
      rcases (met_visit atTop u).2 metU with before | edge
      · exact ⟨u, before, path⟩
      · exact ⟨entry.1, .inr ⟨entry.2, by rw [atTop]; exact List.mem_cons_self⟩, path.head edge⟩

theorem Inv.processed_closed (holds : Inv next config) (idle : config.stack = []) {u w : ν}
    (processed : config.mark u = .processed) (path : ReflTransGen (Edge next) u w) : config.mark w = .processed := by
  induction path with
  | refl => exact processed
  | tail _ edge ih =>
    rcases holds.before _ ((holds.finished _).2 ih) _ edge with ⟨done, -⟩ | noted
    · exact (holds.finished _).1 done
    · exact holds.processed_of_idle idle (holds.cycles _ _ noted).2.2.1

theorem Traversed.traverse {roots : List ν} {root : ν} (before : Traversed next roots config)
    (closed : ∀ v ∈ nodes, ∀ w ∈ next v, w ∈ nodes) (listed : root ∈ nodes) {fuel : Nat}
    (enough : budget next nodes ≤ fuel) : Traversed next (roots ++ [root]) (traverse next fuel config root) := by
  unfold PostOrder.traverse
  by_cases pending : config.mark root = .pending
  · rw [if_pos pending]
    have started := before.inv.start before.idle root
    obtain ⟨idle, kept, reached⟩ := loop_spec closed fuel _ started
      (by simpa using listed) (Nat.le_trans (potential_start config root) enough)
    have inv := started.loop fuel
    refine ⟨inv, idle, fun v => ⟨fun processed => ?_, fun reachable => ?_⟩⟩
    · have metAfter : Met (loop next fuel { config with stack := [(root, false)] }) v := by
        left
        rw [processed]
        simp
      obtain ⟨u, metBefore, path⟩ := reached v metAfter
      rcases metBefore with earlier | ⟨leaving, onStack⟩
      · obtain ⟨r, mem, pathR⟩ := (before.processed u).1 (before.inv.processed_of_idle before.idle earlier)
        exact ⟨r, List.mem_append_left _ mem, pathR.trans path⟩
      · have isRoot : u = root := congrArg Prod.fst (List.mem_singleton.1 onStack)
        subst isRoot
        exact ⟨u, List.mem_append_right _ (List.mem_singleton_self u), path⟩
    · obtain ⟨r, mem, path⟩ := reachable
      have processedRoot : (loop next fuel { config with stack := [(root, false)] }).mark r = .processed := by
        have met : Met { config with stack := [(root, false)] } r := by
          rcases List.mem_append.1 mem with earlier | isRoot
          · left
            show config.mark r ≠ .pending
            rw [(before.processed r).2 ⟨r, earlier, .refl⟩]
            simp
          · right
            rw [List.mem_singleton.1 isRoot]
            exact ⟨false, List.mem_singleton_self _⟩
        rcases kept r met with markedAfter | ⟨leaving, onStack⟩
        · exact inv.processed_of_idle idle markedAfter
        · rw [idle] at onStack
          cases onStack
      exact inv.processed_closed idle processedRoot path
  · rw [if_neg pending]
    have processedRoot := before.inv.processed_of_idle before.idle pending
    refine ⟨before.inv, before.idle, fun v => (before.processed v).trans ⟨?_, ?_⟩⟩
    · intro ⟨r, mem, path⟩
      exact ⟨r, List.mem_append_left _ mem, path⟩
    · intro ⟨r, mem, path⟩
      rcases List.mem_append.1 mem with earlier | isRoot
      · exact ⟨r, earlier, path⟩
      · rw [List.mem_singleton.1 isRoot] at path
        obtain ⟨other, otherMember, toRoot⟩ := (before.processed root).1 processedRoot
        exact ⟨other, otherMember, toRoot.trans path⟩

end Termination

section Order

variable [DecidableEq ν] {next : ν → List ν} {roots : List ν} {config : Config ν}

theorem traversed_nil (next : ν → List ν) : Traversed next [] { mark := fun _ => .pending } := by
  refine ⟨?_, rfl, fun v => by simp⟩
  exact
    { exits := by simp
      exitsOnce := by simp
      enters := by simp
      finished := by simp
      once := by simp
      pushed := by simp
      waiting := by simp
      before := by simp
      cycles := by simp }

theorem Traversed.mem_finished (done : Traversed next roots config) (v : ν) :
    v ∈ config.finished ↔ ∃ root ∈ roots, ReflTransGen (Edge next) root v :=
  (done.inv.finished v).trans (done.processed v)

/-- A neighbour is finished first unless it reaches its node. -/
theorem Traversed.before (done : Traversed next roots config) {u v : ν} (finished : u ∈ config.finished)
    (edge : v ∈ next u) : config.finished.idxOf v < config.finished.idxOf u ∨ ReflTransGen (Edge next) v u := by
  rcases done.inv.before u finished v edge with ⟨-, order⟩ | noted
  · exact .inl order
  · exact .inr (done.inv.cycles u v noted).2.2.2

/-- Edges are noted exactly if the roots reach a cycle. -/
theorem Traversed.back_eq_nil_iff (done : Traversed next roots config) :
    config.back = [] ↔ ∀ u ∈ config.finished, ¬ TransGen (Edge next) u u := by
  refine ⟨fun isEmpty u finished cycle => ?_, fun acyclic => ?_⟩
  · -- Without a noted edge the place in the order falls along every path.
    have falls : ∀ {w : ν}, TransGen (Edge next) u w →
        w ∈ config.finished ∧ config.finished.idxOf w < config.finished.idxOf u := by
      intro w path
      have step : ∀ {x y : ν}, x ∈ config.finished → Edge next x y →
          y ∈ config.finished ∧ config.finished.idxOf y < config.finished.idxOf x := by
        intro x y mem edge
        rcases done.inv.before x mem y edge with order | noted
        · exact order
        · rw [isEmpty] at noted
          cases noted
      induction path with
      | single edge => exact step finished edge
      | tail _ edge ih =>
        have next := step ih.1 edge
        exact ⟨next.1, Nat.lt_trans next.2 ih.2⟩
    exact Nat.lt_irrefl _ (falls cycle).2
  · apply List.eq_nil_iff_forall_not_mem.2
    intro ⟨u, v⟩ noted
    obtain ⟨edge, startedU, -, path⟩ := done.inv.cycles u v noted
    have finished := (done.inv.finished u).2 (done.inv.processed_of_idle done.idle startedU)
    exact acyclic u finished (TransGen.head' edge path)

end Order

end Itex.Lib.PostOrder
