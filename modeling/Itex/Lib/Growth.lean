import Itex.Lib.Fallible

/-!
Contract: operations that only add to a state and report whether they did.

Owns: an order with a size, operations that grow in it, states that are lists, and a
`do … while` loop over such an operation.
-/

namespace Itex.Lib

/-- An order on states, with a size that rises along it and that is bounded from each state on. -/
structure Growth (σ : Type) where
  le : σ → σ → Prop
  size : σ → Nat
  ceiling : σ → Nat
  refl : ∀ s, le s s
  trans : ∀ {s t u}, le s t → le t u → le s u
  size_le : ∀ {s t}, le s t → size s ≤ size t
  size_le_ceiling : ∀ s, size s ≤ ceiling s
  ceiling_le : ∀ {s t}, le s t → ceiling t ≤ ceiling s

namespace Growth

variable {ε α σ : Type} (growth : Growth σ)

/-- A state that was reached from `start`, with the report whether it is a larger one. -/
def Grows (start : σ) (result : Bool × σ) : Prop :=
  growth.le start result.2 ∧ (result.1 = true → growth.size start < growth.size result.2)

variable {growth}

theorem Grows.same (s : σ) : growth.Grows s (false, s) := ⟨growth.refl s, fun changed => by cases changed⟩

theorem Grows.then {s t u : σ} {first second : Bool} (before : growth.Grows s (first, t))
    (after : growth.Grows t (second, u)) : growth.Grows s (first || second, u) := by
  refine ⟨growth.trans before.1 after.1, ?_⟩
  intro changed
  have less := growth.size_le before.1
  have less' := growth.size_le after.1
  rcases Bool.or_eq_true_iff.1 changed with changed | changed
  · exact Nat.lt_of_lt_of_le (before.2 changed) less'
  · exact Nat.lt_of_le_of_lt less (after.2 changed)

theorem Grows.weaken {s t : σ} {report report' : Bool} (grows : growth.Grows s (report, t))
    (less : report' = true → report = true) : growth.Grows s (report', t) :=
  ⟨grows.1, fun changed => grows.2 (less changed)⟩

theorem Grows.foldlM {step : Bool × σ → α → Except ε (Bool × σ)} {l : List α} {start : σ} {result : Bool × σ}
    (each : ∀ changed s, ∀ a ∈ l, ∀ next, step (changed, s) a = .ok next →
      ∃ report, growth.Grows s (report, next.2) ∧ (next.1 = true → (changed || report) = true))
    (returned : l.foldlM step (false, start) = .ok result) : growth.Grows start result := by
  apply foldlM_invariant (fun _ state => growth.Grows start state) (.same start) _ returned
  intro seen a rest state next split holds stepped
  obtain ⟨report, grows, reported⟩ := each state.1 state.2 a (by simp [split]) next stepped
  exact (holds.then grows).weaken reported

theorem sum_le {l l' : List σ} (pairs : List.Forall₂ growth.le l l') :
    (l.map growth.size).sum ≤ (l'.map growth.size).sum := by
  induction pairs with
  | nil => exact Nat.le_refl _
  | cons head _ ih =>
    have := growth.size_le head
    rw [List.map_cons, List.map_cons, List.sum_cons, List.sum_cons]
    omega

theorem forall₂_refl (l : List σ) : List.Forall₂ growth.le l l :=
  List.forall₂_same.2 fun s _ => growth.refl s

/-- States side by side, each of which grows. -/
def list (growth : Growth σ) : Growth (List σ) where
  le := List.Forall₂ growth.le
  size l := (l.map growth.size).sum
  ceiling l := (l.map growth.ceiling).sum
  refl := forall₂_refl
  trans := by
    intro l l' l'' before
    induction before generalizing l'' with
    | nil => exact id
    | cons head _ ih =>
      intro after
      cases after with
      | cons head' tail' => exact .cons (growth.trans head head') (ih tail')
  size_le := sum_le
  size_le_ceiling := by
    intro l
    induction l with
    | nil => exact Nat.le_refl _
    | cons head tail ih =>
      have := growth.size_le_ceiling head
      rw [List.map_cons, List.map_cons, List.sum_cons, List.sum_cons]
      omega
  ceiling_le := by
    intro l l' pairs
    induction pairs with
    | nil => exact Nat.le_refl _
    | cons head _ ih =>
      have := growth.ceiling_le head
      rw [List.map_cons, List.map_cons, List.sum_cons, List.sum_cons]
      omega

theorem Grows.set {l : List σ} {i : Nat} {s t : σ} {report : Bool} (atI : l[i]? = some s)
    (grows : growth.Grows s (report, t)) : growth.list.Grows l (report, l.set i t) := by
  induction l generalizing i with
  | nil => cases atI
  | cons head tail ih =>
    cases i with
    | zero =>
      cases atI
      refine ⟨.cons grows.1 (forall₂_refl tail), ?_⟩
      intro changed
      have less := grows.2 changed
      change ((s :: tail).map growth.size).sum < ((t :: tail).map growth.size).sum
      rw [List.map_cons, List.map_cons, List.sum_cons, List.sum_cons]
      exact Nat.add_lt_add_right less _
    | succ i =>
      have rest := ih atI
      refine ⟨.cons (growth.refl head) rest.1, ?_⟩
      intro changed
      have less : (tail.map growth.size).sum < ((tail.set i t).map growth.size).sum := rest.2 changed
      change ((head :: tail).map growth.size).sum < ((head :: tail.set i t).map growth.size).sum
      rw [List.map_cons, List.map_cons, List.sum_cons, List.sum_cons]
      exact Nat.add_lt_add_left less _

/-- Where a list of states grew, one of them did. -/
theorem exists_size_lt {l l' : List σ} (pairs : List.Forall₂ growth.le l l')
    (less : (l.map growth.size).sum < (l'.map growth.size).sum) :
    ∃ (i : Nat) (s t : σ), l[i]? = some s ∧ l'[i]? = some t ∧ growth.le s t ∧ growth.size s < growth.size t := by
  induction pairs with
  | nil => exact absurd less (Nat.lt_irrefl _)
  | @cons s t tail tail' head _ ih =>
    by_cases here : growth.size s < growth.size t
    · exact ⟨0, s, t, rfl, rfl, head, here⟩
    · rw [List.map_cons, List.map_cons, List.sum_cons, List.sum_cons] at less
      obtain ⟨i, s', t', atI, atI', below, grew⟩ := ih (by omega)
      exact ⟨i + 1, s', t', atI, atI', below, grew⟩

/-- `do … while`: the body runs until it reports no change. Without a result, the fuel
ran out, of the loop or of its body. -/
def doWhile (body : σ → Option (Except ε (Bool × σ))) : Nat → σ → Option (Except ε σ)
  | 0, _ => none
  | rounds + 1, s =>
    match body s with
    | none => none
    | some (.error failure) => some (.error failure)
    | some (.ok (changed, s)) => if changed then doWhile body rounds s else some (.ok s)

theorem doWhile_ends {body : σ → Option (Except ε (Bool × σ))} (ends : ∀ s, ∃ result, body s = some result)
    (grows : ∀ s result, body s = some (.ok result) → growth.Grows s result) (rounds : Nat) (s : σ)
    (enough : growth.ceiling s - growth.size s < rounds) :
    ∃ result, doWhile body rounds s = some result ∧ ∀ final, result = .ok final → growth.le s final := by
  induction rounds generalizing s with
  | zero => exact absurd enough (Nat.not_lt_zero _)
  | succ rounds ih =>
    obtain ⟨result, ran⟩ := ends s
    unfold doWhile
    rw [ran]
    match result, ran with
    | .error failure, _ =>
      refine ⟨.error failure, rfl, ?_⟩
      intro final failed
      cases failed
    | .ok (false, t), ran =>
      refine ⟨.ok t, rfl, ?_⟩
      intro final same
      cases same
      exact (grows s _ ran).1
    | .ok (true, t), ran =>
      have grew := grows s _ ran
      have more : growth.size s < growth.size t := grew.2 rfl
      have below : growth.ceiling t ≤ growth.ceiling s := growth.ceiling_le grew.1
      have capped := growth.size_le_ceiling t
      obtain ⟨result, looped, above⟩ := ih t (by omega)
      exact ⟨result, looped, fun final same => growth.trans grew.1 (above final same)⟩

end Growth

end Itex.Lib
