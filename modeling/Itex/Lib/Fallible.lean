import Mathlib

/-!
Contract: computations in `Except` and `Option` that returned.

Owns: inversion of a bind, of a read, of a mapped list and of a fold, and the
invariant rule of a fold.
-/

namespace Itex.Lib

variable {ε α β σ : Type}

theorem bind_ok {x : Except ε α} {f : α → Except ε β} {b : β} :
    (x >>= f) = .ok b ↔ ∃ a, x = .ok a ∧ f a = .ok b := by
  cases x <;> simp [bind, Except.bind]

/-- A test that would have stopped the computation did not. -/
theorem of_guard {c : Prop} [Decidable c] {x y : Except ε α} {a : α} (ran : (if c then x else y) = .ok a)
    (stops : x ≠ .ok a := by intro stop; cases stop) : ¬ c ∧ y = .ok a := by
  split at ran
  · exact absurd ran stops
  next passed => exact ⟨passed, ran⟩

theorem read_lt {l : List α} {i : Nat} {a : α} (atIndex : l[i]? = some a) : i < l.length :=
  (List.getElem?_eq_some_iff.1 atIndex).1

theorem mapM_eq_ok {f : α → Except ε β} {l : List α} {out : List β} :
    l.mapM f = .ok out ↔ List.Forall₂ (fun a b => f a = .ok b) l out := by
  induction l generalizing out with
  | nil =>
    rw [List.mapM_nil, List.forall₂_nil_left_iff]
    constructor
    · intro ran
      cases ran
      rfl
    · rintro rfl
      rfl
  | cons head tail ih =>
    rw [List.mapM_cons, List.forall₂_cons_left_iff]
    constructor
    · intro ran
      obtain ⟨first, firstOk, ran⟩ := bind_ok.1 ran
      obtain ⟨rest, restOk, ran⟩ := bind_ok.1 ran
      cases ran
      exact ⟨first, rest, firstOk, ih.1 restOk, rfl⟩
    · rintro ⟨first, rest, firstOk, restOk, rfl⟩
      rw [bind_ok]
      refine ⟨first, firstOk, ?_⟩
      rw [bind_ok]
      exact ⟨rest, ih.2 restOk, rfl⟩

theorem mapM_eq_some {f : α → Option β} {l : List α} {out : List β} :
    l.mapM f = some out ↔ List.Forall₂ (fun a b => f a = some b) l out := by
  induction l generalizing out with
  | nil =>
    rw [List.mapM_nil, List.forall₂_nil_left_iff]
    constructor
    · intro ran
      exact (Option.some.inj ran).symm
    · intro isNil
      rw [isNil]
      rfl
  | cons head tail ih =>
    rw [List.mapM_cons, List.forall₂_cons_left_iff]
    constructor
    · intro ran
      obtain ⟨first, isFirst, ran⟩ := Option.bind_eq_some_iff.1 ran
      obtain ⟨rest, isRest, ran⟩ := Option.bind_eq_some_iff.1 ran
      exact ⟨first, rest, isFirst, ih.1 isRest, (Option.some.inj ran).symm⟩
    · rintro ⟨first, rest, isFirst, isRest, rfl⟩
      rw [isFirst, ih.2 isRest]
      rfl

theorem exists_mapM_eq_ok {f : α → Except ε β} {l : List α} (each : ∀ a ∈ l, ∃ b, f a = .ok b) :
    ∃ out, l.mapM f = .ok out := by
  induction l with
  | nil => exact ⟨[], rfl⟩
  | cons head tail ih =>
    obtain ⟨first, firstOk⟩ := each head List.mem_cons_self
    obtain ⟨rest, restOk⟩ := ih fun a mem =>
      each a (List.mem_cons_of_mem _ mem)
    exact ⟨first :: rest, mapM_eq_ok.2 (.cons firstOk (mapM_eq_ok.1 restOk))⟩

theorem exists_of_forall₂_of_mem_left {r : α → β → Prop} {l : List α} {out : List β}
    (pairs : List.Forall₂ r l out) {a : α} (mem : a ∈ l) : ∃ b ∈ out, r a b := by
  induction pairs with
  | nil => cases mem
  | @cons first result tail rest related _ ih =>
    grind

theorem exists_of_forall₂_of_mem_right {r : α → β → Prop} {l : List α} {out : List β}
    (pairs : List.Forall₂ r l out) {b : β} (mem : b ∈ out) : ∃ a ∈ l, r a b :=
  exists_of_forall₂_of_mem_left pairs.flip mem

theorem mem_source_of_mapM {f : α → Except ε β} {l : List α} {out : List β}
    (ran : l.mapM f = .ok out) {b : β} (mem : b ∈ out) : ∃ a ∈ l, f a = .ok b :=
  exists_of_forall₂_of_mem_right (mapM_eq_ok.1 ran) mem

theorem mem_result_of_mapM {f : α → Except ε β} {l : List α} {out : List β}
    (ran : l.mapM f = .ok out) {a : α} (mem : a ∈ l) : ∃ b ∈ out, f a = .ok b :=
  exists_of_forall₂_of_mem_left (mapM_eq_ok.1 ran) mem

theorem mem_flatten_of_mapM {f : α → Except ε (List β)} {l : List α} {out : List (List β)}
    (ran : l.mapM f = .ok out) {b : β} : b ∈ out.flatten ↔ ∃ a ∈ l, ∃ bs, f a = .ok bs ∧ b ∈ bs := by
  rw [List.mem_flatten]
  constructor
  · rintro ⟨bs, listed, mem⟩
    obtain ⟨a, source, ok⟩ := mem_source_of_mapM ran listed
    exact ⟨a, source, bs, ok, mem⟩
  · rintro ⟨a, source, bs, ok, mem⟩
    obtain ⟨found, listed, same⟩ := mem_result_of_mapM ran source
    rw [ok] at same
    cases same
    exact ⟨bs, listed, mem⟩

/-- What holds at the start of a fold and is kept by each successful step holds
when the fold returns. The invariant may speak about the elements done. -/
theorem foldlM_invariant {step : σ → α → Except ε σ} (inv : List α → σ → Prop)
    {l : List α} {start final : σ} (initial : inv [] start)
    (kept : ∀ seen a rest s s', l = seen ++ a :: rest → inv seen s → step s a = .ok s' → inv (seen ++ [a]) s')
    (ran : l.foldlM step start = .ok final) : inv l final := by
  suffices ∀ (rest seen : List α) (s : σ), l = seen ++ rest → inv seen s →
      rest.foldlM step s = .ok final → inv l final from this l [] start rfl initial ran
  intro rest
  induction rest with
  | nil =>
    intro seen s split holds finished
    cases finished
    rwa [split, List.append_nil]
  | cons head tail ih =>
    intro seen s split holds finished
    rw [List.foldlM_cons] at finished
    obtain ⟨s', stepped, finished⟩ := bind_ok.1 finished
    exact ih (seen ++ [head]) s' (by simp [split])
      (kept seen head tail s s' split holds stepped) finished

theorem forM_eq_ok {check : α → Except ε Unit} {l : List α} (ran : l.forM check = .ok ()) :
    ∀ a ∈ l, check a = .ok () := by
  induction l with
  | nil => exact nofun
  | cons head tail ih =>
    change (check head >>= fun _ => tail.forM check) = .ok () at ran
    obtain ⟨_, first, rest⟩ := bind_ok.1 ran
    intro a mem
    rcases List.mem_cons.1 mem with isHead | later
    · rw [isHead]
      exact first
    · exact ih rest a later

/-- The rule for a fold over the first numbers. -/
theorem foldlM_range_invariant {step : σ → Nat → Except ε σ} (inv : Nat → σ → Prop) {n : Nat}
    {start final : σ} (initial : inv 0 start) (kept : ∀ k s s', k < n → inv k s → step s k = .ok s' → inv (k + 1) s')
    (ran : (List.range n).foldlM step start = .ok final) : inv n final := by
  induction n generalizing final with
  | zero =>
    cases ran
    exact initial
  | succ n ih =>
    rw [List.range_succ, List.foldlM_append] at ran
    obtain ⟨s, reached, ran⟩ := bind_ok.1 ran
    rw [List.foldlM_cons] at ran
    obtain ⟨s', stepped, ran⟩ := bind_ok.1 ran
    cases ran
    have holds := ih (fun k s s' below => kept k s s' (Nat.lt_succ_of_lt below)) reached
    exact kept n s final (Nat.lt_succ_self n) holds stepped

/-- The same rule, where a step also knows which run led to it. -/
theorem foldlM_reached_invariant {step : σ → α → Except ε σ} (inv : List α → σ → Prop)
    {l : List α} {start final : σ} (initial : inv [] start)
    (kept : ∀ seen a rest s s', l = seen ++ a :: rest → seen.foldlM step start = .ok s →
      inv seen s → step s a = .ok s' → inv (seen ++ [a]) s')
    (ran : l.foldlM step start = .ok final) : inv l final := by
  have both := foldlM_invariant (fun seen s => seen.foldlM step start = .ok s ∧ inv seen s)
    ⟨rfl, initial⟩ ?_ ran
  · exact both.2
  · intro seen a rest s s' split holds stepped
    refine ⟨?_, kept seen a rest s s' split holds.1 holds.2 stepped⟩
    rw [List.foldlM_append, bind_ok]
    refine ⟨s, holds.1, ?_⟩
    rw [List.foldlM_cons, bind_ok]
    exact ⟨s', stepped, rfl⟩

/-- A fold returns where each step does from every state that satisfies the invariant. -/
theorem exists_foldlM_eq_ok {step : σ → α → Except ε σ} (inv : List α → σ → Prop)
    {l : List α} {start : σ} (initial : inv [] start) (steps : ∀ seen a rest s, l = seen ++ a :: rest → inv seen s →
      ∃ s', step s a = .ok s' ∧ inv (seen ++ [a]) s') : ∃ final, l.foldlM step start = .ok final ∧ inv l final := by
  suffices ∀ (rest seen : List α) (s : σ), l = seen ++ rest → inv seen s →
      ∃ final, rest.foldlM step s = .ok final ∧ inv l final from this l [] start rfl initial
  intro rest
  induction rest with
  | nil =>
    intro seen s split holds
    rw [List.append_nil] at split
    exact ⟨s, rfl, split ▸ holds⟩
  | cons head tail ih =>
    intro seen s split holds
    obtain ⟨s', stepped, holds'⟩ := steps seen head tail s split holds
    obtain ⟨final, ran, holdsFinal⟩ :=
      ih (seen ++ [head]) s' (by simp [split]) holds'
    exact ⟨final, by rw [List.foldlM_cons, bind_ok]; exact ⟨s', stepped, ran⟩, holdsFinal⟩

/-- A loop over indices returns where each pass does. -/
theorem exists_foldlM_range_eq_ok {step : σ → Nat → Except ε σ} (inv : Nat → σ → Prop) {n : Nat} {start : σ}
    (initial : inv 0 start) (steps : ∀ i < n, ∀ s, inv i s → ∃ s', step s i = .ok s' ∧ inv (i + 1) s') :
    ∃ final, (List.range n).foldlM step start = .ok final ∧ inv n final := by
  induction n with
  | zero => exact ⟨start, rfl, initial⟩
  | succ n ih =>
    obtain ⟨s, reached, holds⟩ := ih fun i bound => steps i (Nat.lt_succ_of_lt bound)
    obtain ⟨s', stepped, holds'⟩ := steps n (Nat.lt_succ_self n) s holds
    refine ⟨s', ?_, holds'⟩
    rw [List.range_succ, List.foldlM_append, bind_ok]
    refine ⟨s, reached, ?_⟩
    rw [List.foldlM_cons, bind_ok]
    exact ⟨s', stepped, rfl⟩

theorem bind_ne_error {x : Except ε α} {f : α → Except ε β} {e : ε} (first : x ≠ .error e)
    (rest : ∀ a, x = .ok a → f a ≠ .error e) : (x >>= f) ≠ .error e := by
  cases x with
  | error other =>
    intro failed
    exact first (congrArg Except.error (Except.error.inj failed))
  | ok a => exact rest a rfl

theorem foldlM_ne_error {step : σ → α → Except ε σ} {e : ε} (inv : σ → Prop) {l : List α} {start : σ}
    (initial : inv start) (steps : ∀ s, ∀ a ∈ l, inv s → step s a ≠ .error e)
    (kept : ∀ s s', ∀ a ∈ l, inv s → step s a = .ok s' → inv s') : l.foldlM step start ≠ .error e := by
  induction l generalizing start with
  | nil =>
    intro failed
    cases failed
  | cons head tail ih =>
    rw [List.foldlM_cons]
    apply bind_ne_error (steps start head List.mem_cons_self initial)
    grind

/-- A run over a list goes through each of its elements. -/
theorem foldlM_append_cons_eq_ok {step : σ → α → Except ε σ} {seen rest : List α} {a : α}
    {start final : σ} (ran : (seen ++ a :: rest).foldlM step start = .ok final) :
    ∃ s s', seen.foldlM step start = .ok s ∧ step s a = .ok s' ∧ rest.foldlM step s' = .ok final := by
  rw [List.foldlM_append] at ran
  obtain ⟨s, reached, ran⟩ := bind_ok.1 ran
  rw [List.foldlM_cons] at ran
  obtain ⟨s', stepped, ran⟩ := bind_ok.1 ran
  exact ⟨s, s', reached, stepped, ran⟩

theorem range_eq_append_cons {n a : Nat} (bound : a < n) :
    List.range n = (List.range n).take a ++ a :: (List.range n).drop (a + 1) := by
  have atA : (List.range n).drop a = a :: (List.range n).drop (a + 1) := by
    rw [List.drop_eq_getElem_cons (by simpa using bound), List.getElem_range]
  rw [← atA, List.take_append_drop]

theorem take_range_of_append_cons {n a : Nat} {seen rest : List Nat} (split : List.range n = seen ++ a :: rest) :
    (List.range n).take a = seen ∧ a < n := by
  have atLength : (List.range n)[seen.length]? = some a := by
    rw [split, List.getElem?_append_right (Nat.le_refl _), Nat.sub_self]
    rfl
  grind

end Itex.Lib
