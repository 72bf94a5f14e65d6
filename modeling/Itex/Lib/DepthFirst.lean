import Mathlib

/-!
Contract: an iterative depth-first traversal with an explicit stack, and the
set of nodes it visits.

Owns: the loop with its three callbacks, reachability through admitted nodes, and that
the pre-order callback is called on exactly the reachable nodes, once each. The
admission test may read the state that the callbacks write.

The loop runs on fuel; `budget` is enough for a graph whose nodes are listed.
-/

set_option autoImplicit false

namespace Itex.Lib.DepthFirst

variable {ν σ : Type}

inductive NodeState where
  | notVisited
  | visiting
  | done
deriving DecidableEq, Repr

/-- An entry of the stack: a node, whether its neighbours were pushed, and the
node it was entered from. -/
structure StackElem (ν : Type) where
  node : ν
  childrenVisited : Bool := false
  src : Option ν := none
deriving Repr

/-- Predicates and callbacks of a traversal over the state `σ`. -/
structure Visitor (ν σ : Type) where
  enter : σ → ν → Bool
  advance : σ → ν → Bool
  preOrder : σ → ν → σ
  postOrder : σ → ν → σ
  onBackEdge : σ → Option ν → ν → σ

/-- A visitor that only tests entry and only calls back in pre-order. -/
def Visitor.preOrderOnly (enter : σ → ν → Bool) (preOrder : σ → ν → σ) : Visitor ν σ where
  enter := enter
  advance := fun _ _ => true
  preOrder := preOrder
  postOrder := fun state _ => state
  onBackEdge := fun state _ _ => state

/-- The loop's variables. The head of `stack` is its top. -/
structure Config (ν σ : Type) where
  stack : List (StackElem ν)
  mark : ν → NodeState
  state : σ

/-- One turn of the loop for the popped entry `w`, over the remaining `stack`. -/
def visit [DecidableEq ν] (visitor : Visitor ν σ) (next : ν → List ν) (w : StackElem ν)
    (stack : List (StackElem ν)) (mark : ν → NodeState) (state : σ) :
    Config ν σ :=
  if mark w.node = .done then
    ⟨stack, mark, state⟩
  else if visitor.enter state w.node = false then
    ⟨stack, Function.update mark w.node .done, state⟩
  else if w.childrenVisited then
    ⟨stack, Function.update mark w.node .done, visitor.postOrder state w.node⟩
  else if mark w.node = .visiting then
    ⟨stack, mark, visitor.onBackEdge state w.src w.node⟩
  else
    let entered := visitor.preOrder state w.node
    let marked := Function.update mark w.node .visiting
    let again : StackElem ν := ⟨w.node, true, w.src⟩
    if visitor.advance entered w.node = false then
      ⟨again :: stack, marked, entered⟩
    else
      -- Neighbours are pushed in order, so the last one is on top.
      ⟨((next w.node).map fun i => ⟨i, false, some w.node⟩).reverse
        ++ again :: stack, marked, entered⟩

/-- The loop, for at most `fuel` turns. -/
def loop [DecidableEq ν] (visitor : Visitor ν σ) (next : ν → List ν) : Nat → Config ν σ → Config ν σ
  | 0, config => config
  | fuel + 1, config =>
    match config.stack with
    | [] => config
    | w :: stack =>
      loop visitor next fuel (visit visitor next w stack config.mark config.state)

/-- Turns enough for any traversal of `nodes`. -/
def budget (nodes : List ν) (next : ν → List ν) (roots : List ν) : Nat :=
  roots.length + (nodes.map fun i => 1 + (next i).length).sum

/-- The loop's variables before its first turn. -/
def Config.initial (roots : List ν) (state : σ) : Config ν σ :=
  ⟨(roots.map fun i => ⟨i, false, none⟩).reverse, fun _ => .notVisited, state⟩

def traverse [DecidableEq ν] (visitor : Visitor ν σ) (nodes : List ν) (next : ν → List ν)
    (roots : List ν) (state : σ) : σ :=
  (loop visitor next (budget nodes next roots)
    ⟨(roots.map fun i => ⟨i, false, none⟩).reverse, fun _ => .notVisited, state⟩).state

/-! ## Reachability -/

/-- Nodes on a path from a root all of whose later nodes are admitted. -/
inductive Reach (next : ν → List ν) (admitted root : ν → Prop) : ν → Prop
  | root {i : ν} (isRoot : root i) : Reach next admitted root i
  | step {i j : ν} (reached : Reach next admitted root i) (edge : j ∈ next i)
      (admits : admitted j) : Reach next admitted root j

/-- A set that no admitted step leaves. -/
def Closed (next : ν → List ν) (admitted inside : ν → Prop) : Prop :=
  ∀ i, inside i → ∀ j ∈ next i, admitted j → inside j

section

variable {next : ν → List ν}

theorem Reach.subset_closed {admitted root : ν → Prop}
    (inside : ν → Prop) (closed : Closed next admitted inside) (roots : ∀ i, root i → inside i) {i : ν}
    (reached : Reach next admitted root i) : inside i := by
  induction reached with
  | root isRoot => exact roots _ isRoot
  | step _ edge admits ih =>
    exact closed _ ih _ edge admits

theorem Reach.mono {admitted admitted' root root' : ν → Prop}
    (admits : ∀ i, admitted i → admitted' i) (roots : ∀ i, root i → root' i) {i : ν}
    (reached : Reach next admitted root i) : Reach next admitted' root' i := by
  induction reached with
  | root isRoot => exact .root (roots _ isRoot)
  | step _ edge admitted ih =>
    exact .step ih edge (admits _ admitted)

theorem Reach.root_or_admitted {admitted root : ν → Prop} {i : ν}
    (reached : Reach next admitted root i) : root i ∨ admitted i := by
  cases reached with
  | root isRoot => exact .inl isRoot
  | step _ _ admits => exact .inr admits

theorem reach_or {admitted left right : ν → Prop} (i : ν) :
    Reach next admitted (fun k => left k ∨ right k) i ↔ Reach next admitted left i ∨ Reach next admitted right i := by
  refine ⟨fun reached => ?_, fun reached => ?_⟩
  · induction reached with
    | root isRoot => exact isRoot.imp .root .root
    | step _ edge admits ih =>
      exact ih.imp (.step · edge admits) (.step · edge admits)
  · rcases reached with reached | reached
    · exact reached.mono (fun _ h => h) fun _ => .inl
    · exact reached.mono (fun _ h => h) fun _ => .inr

/-- A traversal from one root that does not re-enter a closed set adds to that
set what an unrestricted traversal would add. -/
theorem reach_outside_closed {admitted inside : ν → Prop} (closed : Closed next admitted inside) (r i : ν) :
    (inside i ∨ Reach next (fun k => k = r ∨ (¬ inside k ∧ admitted k)) (· = r) i) ↔
      (inside i ∨ Reach next admitted (· = r) i) := by
  refine ⟨fun h => h.imp_right fun reached => ?_, fun h => ?_⟩
  · clear h
    induction reached with
    | root isRoot => exact .root isRoot
    | step _ edge admits ih =>
      rcases admits with isRoot | ⟨-, admits⟩
      · exact .root isRoot
      · exact .step ih edge admits
  · rcases h with h | reached
    · exact .inl h
    · induction reached with
      | root isRoot => exact .inr (.root isRoot)
      | @step k j _ edge admits ih =>
        by_cases already : inside j
        · exact .inl already
        · rcases ih with h | reached
          · exact .inl (closed _ h _ edge admits)
          · exact .inr (.step reached edge (.inr ⟨already, admits⟩))

theorem reach_congr {admitted admitted' root root' : ν → Prop}
    (admits : ∀ i, admitted i ↔ admitted' i) (roots : ∀ i, root i ↔ root' i) (i : ν) :
    Reach next admitted root i ↔ Reach next admitted' root' i :=
  ⟨fun reached => reached.mono (fun k => (admits k).1) fun k => (roots k).1,
    fun reached => reached.mono (fun k => (admits k).2) fun k => (roots k).2⟩

end

theorem foldl_sweep (next : ν → List ν) (admitted root : ν → Prop) (step : σ → ν → σ)
    (marked : σ → ν → Prop) (inv : σ → Prop) (candidates : List ν) (start : σ)
    (each : ∀ s, ∀ r ∈ candidates, inv s → Closed next admitted (marked s) → inv (step s r) ∧ ∀ i, marked (step s r) i ↔
        marked s i ∨ (root r ∧ Reach next admitted (· = r) i))
    (initial : inv start) (unmarked : ∀ i, ¬ marked start i) :
    inv (candidates.foldl step start) ∧ ∀ i, marked (candidates.foldl step start) i ↔
      Reach next admitted (fun r => r ∈ candidates ∧ root r) i := by
  suffices ∀ (rest : List ν) (s : σ) (seen : ν → Prop), (∀ r ∈ rest, r ∈ candidates) → inv s →
      (∀ i, marked s i ↔ Reach next admitted seen i) →
      inv (rest.foldl step s) ∧ ∀ i, marked (rest.foldl step s) i ↔
        Reach next admitted (fun r => seen r ∨ (r ∈ rest ∧ root r)) i by
    obtain ⟨kept, swept⟩ := this candidates start (fun _ => False) (fun _ mem => mem) initial
      fun i => ⟨fun marks => absurd marks (unmarked i), fun reached => by
        induction reached with
        | root isRoot => exact isRoot.elim
        | step _ _ _ ih => exact absurd ih (unmarked _)⟩
    exact ⟨kept, fun i => (swept i).trans (reach_congr (fun _ => Iff.rfl) (by simp) i)⟩
  intro rest
  induction rest with
  | nil =>
    intro s seen _ kept marks
    exact ⟨kept, fun i => (marks i).trans (reach_congr (fun _ => Iff.rfl) (by simp) i)⟩
  | cons head tail ih =>
    intro s seen candidate kept marks
    have closed : Closed next admitted (marked s) := by
      intro i marked_i j edge admits
      exact (marks j).2 (.step ((marks i).1 marked_i) edge admits)
    obtain ⟨kept', marks'⟩ := each s head (candidate head (by simp)) kept closed
    obtain ⟨kept'', marks''⟩ := ih (step s head)
      (fun r => seen r ∨ (r = head ∧ root r))
      (fun r mem => candidate r (by simp [mem])) kept' fun i => by
        rw [marks', marks, reach_or]
        refine or_congr_right ?_
        by_cases isRoot : root head
        · simp only [isRoot, true_and]
          refine reach_congr (fun _ => Iff.rfl) (fun r => ?_) i
          constructor
          · rintro rfl
            exact ⟨rfl, isRoot⟩
          · exact And.left
        · simp only [isRoot, false_and, false_iff]
          intro reached
          induction reached with
          | root same => exact isRoot (same.1 ▸ same.2)
          | step _ _ _ ih => exact ih
    refine ⟨kept'', fun i => (marks'' i).trans (reach_congr (fun _ => Iff.rfl) (fun r => ?_) i)⟩
    simp only [List.mem_cons]
    tauto

/-! ## What a traversal visits -/

/-- The loop's variables after it visited `visited`, in that order. -/
structure Progress (next : ν → List ν) (nodes roots : List ν) (preOrder : σ → ν → σ)
    (admitted : ν → Prop) (start : σ) (config : Config ν σ) (visited : List ν) :
    Prop where
  state : config.state = visited.foldl preOrder start
  nodup : visited.Nodup
  fresh : ∀ i, config.mark i = .notVisited → i ∉ visited
  visiting : ∀ i, config.mark i = .visiting → i ∈ visited
  done : ∀ i, config.mark i = .done → i ∈ visited ∨ ¬ admitted i
  reached : ∀ i ∈ visited, Reach next admitted (fun r => r ∈ roots ∧ admitted r) i
  again : ∀ w ∈ config.stack, w.childrenVisited = true → w.node ∈ visited
  source : ∀ w ∈ config.stack, w.node ∈ roots ∨ ∃ i ∈ visited, w.node ∈ next i
  listed : ∀ w ∈ config.stack, w.node ∈ nodes
  rooted : ∀ r ∈ roots, r ∈ visited ∨ ¬ admitted r ∨ ∃ w ∈ config.stack, w.node = r
  followed : ∀ i ∈ visited, ∀ j ∈ next i, j ∈ visited ∨ ¬ admitted j ∨ ∃ w ∈ config.stack, w.node = j

section Traversal

variable [DecidableEq ν] {next : ν → List ν} {nodes roots : List ν} {enter : σ → ν → Bool}
  {preOrder : σ → ν → σ} {admitted : ν → Prop} {start : σ}

section

variable {w : StackElem ν} {stack : List (StackElem ν)}

theorem Progress.drop {mark mark' : ν → NodeState} {state : σ} {visited : List ν}
    (progress : Progress next nodes roots preOrder admitted start ⟨w :: stack, mark, state⟩ visited)
    (handled : w.node ∈ visited ∨ ¬ admitted w.node)
    (marks : mark' = mark ∨ mark' = Function.update mark w.node .done) :
    Progress next nodes roots preOrder admitted start ⟨stack, mark', state⟩ visited := by
  have kept : ∀ j, (j ∈ visited ∨ ¬ admitted j ∨ ∃ e ∈ w :: stack, e.node = j) →
      j ∈ visited ∨ ¬ admitted j ∨ ∃ e ∈ stack, e.node = j := by
    intro j pending
    rcases pending with mem | refused | ⟨e, mem, rfl⟩
    · exact .inl mem
    · exact .inr (.inl refused)
    · rcases List.mem_cons.1 mem with rfl | mem
      · exact handled.imp_right .inl
      · exact .inr (.inr ⟨e, mem, rfl⟩)
  have marked : ∀ i, mark' i = mark i ∨ (i = w.node ∧ mark' i = .done) := by
    intro i
    rcases marks with rfl | rfl
    · exact .inl rfl
    · by_cases same : i = w.node
      · exact .inr ⟨same, by simp [same]⟩
      · exact .inl (Function.update_of_ne same _ _)
  exact {
    state := progress.state
    nodup := progress.nodup
    fresh := fun i isFresh => by
      rcases marked i with same | ⟨-, isDone⟩
      · exact progress.fresh i (same.symm.trans isFresh)
      · simp [isDone] at isFresh
    visiting := fun i isVisiting => by
      rcases marked i with same | ⟨-, isDone⟩
      · exact progress.visiting i (same.symm.trans isVisiting)
      · simp [isDone] at isVisiting
    done := fun i isDone => by
      rcases marked i with same | ⟨rfl, -⟩
      · exact progress.done i (same.symm.trans isDone)
      · exact handled
    reached := progress.reached
    again := fun e mem => progress.again e (List.mem_cons_of_mem _ mem)
    source := fun e mem => progress.source e (List.mem_cons_of_mem _ mem)
    listed := fun e mem => progress.listed e (List.mem_cons_of_mem _ mem)
    rooted := fun r mem => kept r (progress.rooted r mem)
    followed := fun i mem j edge => kept j (progress.followed i mem j edge) }

theorem Progress.entered {mark : ν → NodeState} {state : σ} {visited : List ν} (progress : Progress next nodes roots preOrder admitted start
      ⟨w :: stack, mark, state⟩ visited) (nextListed : ∀ i ∈ nodes, ∀ j ∈ next i, j ∈ nodes)
    (isFresh : mark w.node = .notVisited) (admits : admitted w.node) : Progress next nodes roots preOrder admitted start
      ⟨((next w.node).map fun i => ⟨i, false, some w.node⟩).reverse ++ ⟨w.node, true, w.src⟩ :: stack,
        Function.update mark w.node .visiting, preOrder state w.node⟩ (visited ++ [w.node]) := by
  have notVisited : w.node ∉ visited := progress.fresh _ isFresh
  have wListed : w.node ∈ nodes := progress.listed w (by simp)
  have kept : ∀ j, (j ∈ visited ∨ ¬ admitted j ∨ ∃ e ∈ w :: stack, e.node = j) →
      j ∈ visited ++ [w.node] ∨ ¬ admitted j ∨
        ∃ e ∈ ((next w.node).map fun i => (⟨i, false, some w.node⟩ : StackElem ν)).reverse
          ++ ⟨w.node, true, w.src⟩ :: stack, e.node = j := by
    intro j pending
    rcases pending with mem | refused | ⟨e, mem, rfl⟩
    · exact .inl (by simp [mem])
    · exact .inr (.inl refused)
    · rcases List.mem_cons.1 mem with rfl | mem
      · exact .inl (by simp)
      · exact .inr (.inr ⟨e, by simp [mem], rfl⟩)
  have wReached : Reach next admitted (fun r => r ∈ roots ∧ admitted r) w.node := by
    rcases progress.source w (by simp) with isRoot | ⟨i, mem, edge⟩
    · exact .root ⟨isRoot, admits⟩
    · exact .step (progress.reached i mem) edge admits
  exact {
    state := by
      have previous : state = visited.foldl preOrder start := progress.state
      simp [previous]
    nodup := by
      rw [List.nodup_append]
      refine ⟨progress.nodup, by simp, fun i mem j last => ?_⟩
      rintro rfl
      exact notVisited (by simpa using List.mem_singleton.1 last ▸ mem)
    fresh := fun i unmarked => by
      by_cases same : i = w.node
      · simp [same] at unmarked
      · simp only [Function.update_of_ne same] at unmarked
        simpa [same] using progress.fresh i unmarked
    visiting := fun i marked => by
      by_cases same : i = w.node
      · simp [same]
      · simp only [Function.update_of_ne same] at marked
        simpa [same] using progress.visiting i marked
    done := fun i marked => by
      by_cases same : i = w.node
      · simp [same] at marked
      · simp only [Function.update_of_ne same] at marked
        exact (progress.done i marked).imp_left (List.mem_append_left _)
    reached := fun i mem => by
      rcases List.mem_append.1 mem with mem | mem
      · exact progress.reached i mem
      · rw [List.mem_singleton.1 mem]
        exact wReached
    again := fun e mem flagged => by
      simp only [List.mem_append, List.mem_reverse, List.mem_map, List.mem_cons] at mem
      rcases mem with ⟨i, -, rfl⟩ | rfl | mem
      · simp at flagged
      · simp
      · exact List.mem_append_left _ (progress.again e (by simp [mem]) flagged)
    source := fun e mem => by
      simp only [List.mem_append, List.mem_reverse, List.mem_map, List.mem_cons] at mem
      rcases mem with ⟨i, edge, rfl⟩ | rfl | mem
      · exact .inr ⟨w.node, by simp, edge⟩
      · exact (progress.source w (by simp)).imp_right fun ⟨i, mem, edge⟩ =>
          ⟨i, List.mem_append_left _ mem, edge⟩
      · exact (progress.source e (by simp [mem])).imp_right fun ⟨i, mem, edge⟩ =>
          ⟨i, List.mem_append_left _ mem, edge⟩
    listed := fun e mem => by
      simp only [List.mem_append, List.mem_reverse, List.mem_map, List.mem_cons] at mem
      rcases mem with ⟨i, edge, rfl⟩ | rfl | mem
      · exact nextListed _ wListed _ edge
      · exact wListed
      · exact progress.listed e (by simp [mem])
    rooted := fun r mem => kept r (progress.rooted r mem)
    followed := fun i mem j edge => by
      rcases List.mem_append.1 mem with mem | mem
      · exact kept j (progress.followed i mem j edge)
      · rw [List.mem_singleton.1 mem] at edge
        exact .inr (.inr ⟨⟨j, false, some w.node⟩, by simp [edge], rfl⟩) }

theorem Progress.visit {mark : ν → NodeState} {state : σ} {visited : List ν} (nextListed : ∀ i ∈ nodes, ∀ j ∈ next i, j ∈ nodes)
    (enters : ∀ seen : List ν, ∀ i ∉ seen, (enter (seen.foldl preOrder start) i = true ↔ admitted i))
    (progress : Progress next nodes roots preOrder admitted start ⟨w :: stack, mark, state⟩ visited) :
    ∃ visited', Progress next nodes roots preOrder admitted start
      (visit (.preOrderOnly enter preOrder) next w stack mark state) visited' := by
  have entering : w.node ∉ visited → (enter state w.node = true ↔ admitted w.node) := by
    intro notVisited
    rw [show state = visited.foldl preOrder start from progress.state]
    exact enters visited _ notVisited
  unfold DepthFirst.visit
  split
  case isTrue isDone => exact ⟨visited, progress.drop (progress.done _ isDone) (.inl rfl)⟩
  case isFalse notDone =>
    split
    case isTrue refused =>
      refine ⟨visited, progress.drop ?_ (.inr rfl)⟩
      by_cases mem : w.node ∈ visited
      · exact .inl mem
      · refine .inr fun admits => ?_
        have := (entering mem).2 admits
        simp only [Visitor.preOrderOnly] at refused
        simp [refused] at this
    case isFalse entered =>
      split
      case isTrue flagged =>
        exact ⟨visited, progress.drop (.inl (progress.again w (by simp) flagged)) (.inr rfl)⟩
      case isFalse =>
        split
        case isTrue marked =>
          exact ⟨visited, progress.drop (.inl (progress.visiting _ marked)) (.inl rfl)⟩
        case isFalse notMarked =>
          have isFresh : mark w.node = .notVisited := by
            cases h : mark w.node <;> simp_all
          have admits : admitted w.node := by
            refine (entering (progress.fresh _ isFresh)).1 ?_
            simpa [Visitor.preOrderOnly] using entered
          refine ⟨visited ++ [w.node], ?_⟩
          rw [if_neg (by simp [Visitor.preOrderOnly])]
          exact progress.entered nextListed isFresh admits

end

/-- Turns that the loop can still take. -/
def remaining (nodes : List ν) (next : ν → List ν) (config : Config ν σ) : Nat :=
  config.stack.length + (nodes.map fun i => if config.mark i = .notVisited then 1 + (next i).length else 0).sum

theorem sum_update_le (nodes : List ν) (cost : ν → Nat) (mark : ν → NodeState) (i : ν)
    (state : NodeState) (marked : state ≠ .notVisited) :
    (nodes.map fun j => if Function.update mark i state j = .notVisited then cost j else 0).sum
      + (if mark i = .notVisited ∧ i ∈ nodes then cost i else 0) ≤
    (nodes.map fun j => if mark j = .notVisited then cost j else 0).sum := by
  induction nodes with
  | nil => simp
  | cons head tail ih =>
    grind

theorem remaining_visit (next : ν → List ν) (visitor : Visitor ν σ) (w : StackElem ν)
    (stack : List (StackElem ν)) (mark : ν → NodeState) (state : σ) (listed : w.node ∈ nodes) :
    remaining nodes next (visit visitor next w stack mark state) < remaining nodes next ⟨w :: stack, mark, state⟩ := by
  have doneLe := sum_update_le nodes (fun i => 1 + (next i).length) mark w.node .done
    (by decide)
  have visitLe := sum_update_le nodes (fun i => 1 + (next i).length) mark w.node .visiting
    (by decide)
  unfold visit
  split
  · simp [remaining]
  next notDone =>
    split
    · simp only [remaining, List.length_cons]
      omega
    · split
      · simp only [remaining, List.length_cons]
        omega
      · split
        · simp [remaining]
        next notVisiting =>
          have isFresh : mark w.node = .notVisited := by
            cases h : mark w.node <;> simp_all
          simp only [isFresh, listed, and_self, if_true] at visitLe
          dsimp only
          split
          · simp only [remaining, List.length_cons]
            omega
          · simp only [remaining, List.length_append, List.length_reverse, List.length_map, List.length_cons]
            omega

theorem Progress.loop (nextListed : ∀ i ∈ nodes, ∀ j ∈ next i, j ∈ nodes) (enters : ∀ seen : List ν, ∀ i ∉ seen,
      (enter (seen.foldl preOrder start) i = true ↔ admitted i)) (fuel : Nat) (config : Config ν σ) (visited : List ν)
    (progress : Progress next nodes roots preOrder admitted start config visited)
    (enough : remaining nodes next config ≤ fuel) : ∃ visited', Progress next nodes roots preOrder admitted start
        (loop (.preOrderOnly enter preOrder) next fuel config) visited' ∧
      (loop (.preOrderOnly enter preOrder) next fuel config).stack = [] := by
  induction fuel generalizing config visited with
  | zero =>
    refine ⟨visited, progress, ?_⟩
    have : config.stack.length = 0 := by
      unfold remaining at enough
      omega
    exact List.eq_nil_of_length_eq_zero this
  | succ fuel ih =>
    obtain ⟨stack, mark, state⟩ := config
    cases stack with
    | nil => exact ⟨visited, progress, rfl⟩
    | cons w stack =>
      obtain ⟨visited', progress'⟩ := progress.visit nextListed enters
      have smaller := remaining_visit next (.preOrderOnly enter preOrder) w stack
        mark state (progress.listed w (by simp))
      exact ih _ visited' progress'
        (Nat.le_of_lt_succ (Nat.lt_of_lt_of_le smaller enough))

omit [DecidableEq ν] in
theorem Progress.initial (rootsListed : ∀ r ∈ roots, r ∈ nodes) :
    Progress next nodes roots preOrder admitted start (Config.initial roots start) [] where
  state := rfl
  nodup := List.nodup_nil
  fresh := by simp
  visiting := by simp [Config.initial]
  done := by simp [Config.initial]
  reached := by simp
  again := by simp [Config.initial]
  source := by
    intro w mem
    simp only [Config.initial, List.mem_reverse, List.mem_map] at mem
    obtain ⟨r, mem, rfl⟩ := mem
    exact .inl mem
  listed := by
    intro w mem
    simp only [Config.initial, List.mem_reverse, List.mem_map] at mem
    obtain ⟨r, mem, rfl⟩ := mem
    exact rootsListed r mem
  rooted := fun r mem => .inr (.inr ⟨⟨r, false, none⟩, by simp [Config.initial, mem], rfl⟩)
  followed := by simp

omit [DecidableEq ν] in
/-- With an empty stack nothing is pending, so the visited set is closed. -/
theorem Progress.mem_iff {config : Config ν σ} {visited : List ν} (progress : Progress next nodes roots preOrder admitted
      start config visited) (emptied : config.stack = []) (i : ν) :
    i ∈ visited ↔ Reach next admitted (fun r => r ∈ roots ∧ admitted r) i := by
  refine ⟨progress.reached i, fun reached => reached.subset_closed (· ∈ visited) ?_ ?_⟩
  · intro k mem j edge admits
    have := progress.followed k mem j edge
    simpa [emptied, admits] using this
  · intro r isRoot
    have := progress.rooted r isRoot.1
    simpa [emptied, isRoot.2] using this

theorem traverse_spec (rootsListed : ∀ r ∈ roots, r ∈ nodes) (nextListed : ∀ i ∈ nodes, ∀ j ∈ next i, j ∈ nodes)
    (enters : ∀ seen : List ν, ∀ i ∉ seen, (enter (seen.foldl preOrder start) i = true ↔ admitted i)) :
    ∃ visited : List ν, visited.Nodup ∧ (∀ i, i ∈ visited ↔ Reach next admitted (fun r => r ∈ roots ∧ admitted r) i) ∧
      traverse (.preOrderOnly enter preOrder) nodes next roots start = visited.foldl preOrder start := by
  obtain ⟨visited, progress, emptied⟩ := (Progress.initial rootsListed).loop nextListed enters
    (budget nodes next roots) _ _ (by simp [remaining, budget, Config.initial])
  exact ⟨visited, progress.nodup, progress.mem_iff emptied, progress.state⟩

end Traversal

end Itex.Lib.DepthFirst
