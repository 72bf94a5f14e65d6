import Itex.Devices.Bfc.Accounting

/-!
Contract: termination of the back-off loop of `ExtendLarge`.

Owns: the loop over any shrinking step and sequence of answers, the sizes at which
nine tenths round back up to themselves, and exactly when the loop stops.

Sizes are multiples of 256. Nine tenths of `256 * k`, rounded down to a whole
number and up to the grid, is `256 * k` again while `k ≤ 9` and lies below it,
but not below `2304 = 256 * 9`, from `k = 10` on.
-/

namespace Itex.Devices.Bfc.BFCAllocator

variable {requested bytes : Nat}

/-- The back-off loop for a device whose successive answers are `answers`;
`shrink` stands for `bytes * kBackpedalFactor` and `fuel` bounds the number of
rounds. The result is the block, null if the loop gave up, and its size. -/
def backpedalLoop (shrink : Nat → Nat) (requested : Nat) : Nat → (Nat → Nat) → Nat → Option (Nat × Nat)
  | 0, _, _ => none
  | fuel + 1, answers, bytes =>
    let bytes := roundedBytes (shrink bytes)
    if bytes < requested then some (0, bytes)
    else if answers 0 = 0 then
      backpedalLoop shrink requested fuel (fun call => answers (call + 1)) bytes
    else some (answers 0, bytes)

/-- The loop stops after finitely many rounds. -/
def BackpedalStops (shrink : Nat → Nat) (requested : Nat) (answers : Nat → Nat)
    (bytes : Nat) : Prop :=
  ∃ fuel, (backpedalLoop shrink requested fuel answers bytes).isSome

/-- Nine tenths, rounded down. -/
def nineTenths (bytes : Nat) : Nat := bytes * 9 / 10

/-- What one round does to a size on the grid: sizes up to `2304` stay, larger
ones shrink but not below `2304`. -/
theorem nineTenths_round (onGrid : kMinAllocationSize ∣ bytes) (inRange : bytes < sizeRange) :
    (bytes ≤ 2304 → roundedBytes (nineTenths bytes) = bytes) ∧ (2304 < bytes → 2304 ≤ roundedBytes (nineTenths bytes) ∧
        roundedBytes (nineTenths bytes) < bytes) := by
  have exact : roundedBytes (nineTenths bytes) = 256 * ((nineTenths bytes + 255) / 256) :=
    roundedBytes_of_le (by
      simp only [nineTenths, kMinAllocationSize, sizeRange] at *
      omega)
  rw [exact]
  simp only [nineTenths, kMinAllocationSize] at *
  omega

theorem nineTenths_round_le (onGrid : kMinAllocationSize ∣ bytes) (inRange : bytes < sizeRange) :
    roundedBytes (nineTenths bytes) ≤ bytes := by
  obtain ⟨stays, shrinks⟩ := nineTenths_round onGrid inRange
  omega

/-! ## Stopping -/

theorem BackpedalStops.of_small {shrink : Nat → Nat} (answers : Nat → Nat)
    (small : roundedBytes (shrink bytes) < requested) : BackpedalStops shrink requested answers bytes :=
  ⟨1, by simp [backpedalLoop, small]⟩

section

variable {shrink : Nat → Nat} {answers : Nat → Nat}

theorem BackpedalStops.of_granted (granted : answers 0 ≠ 0) : BackpedalStops shrink requested answers bytes := by
  refine ⟨1, ?_⟩
  simp only [backpedalLoop, granted, if_false]
  split <;> rfl

theorem BackpedalStops.of_next (next : BackpedalStops shrink requested (fun call => answers (call + 1))
      (roundedBytes (shrink bytes))) : BackpedalStops shrink requested answers bytes := by
  by_cases small : roundedBytes (shrink bytes) < requested
  · exact .of_small answers small
  · by_cases null : answers 0 = 0
    · obtain ⟨fuel, stopped⟩ := next
      refine ⟨fuel + 1, ?_⟩
      simpa only [backpedalLoop, small, null, if_true, if_false] using stopped
    · exact .of_granted null

/-- One block among the answers ends the loop, at the latest when it is
offered. -/
theorem BackpedalStops.of_answer {call : Nat}
    (granted : answers call ≠ 0) : BackpedalStops shrink requested answers bytes := by
  induction call generalizing answers bytes with
  | zero => exact .of_granted granted
  | succ call ih => exact .of_next (ih granted)

end

/-- Above `2304` every round shrinks the size, so the loop reaches the
request. -/
theorem BackpedalStops.of_large (large : 2304 < requested) (answers : Nat → Nat)
    (onGrid : kMinAllocationSize ∣ bytes) (inRange : bytes < sizeRange) :
    BackpedalStops nineTenths requested answers bytes := by
  induction bytes using Nat.strong_induction_on generalizing answers with
  | _ bytes ih =>
    by_cases small : roundedBytes (nineTenths bytes) < requested
    · exact .of_small answers small
    · have below := nineTenths_round_le onGrid inRange
      obtain ⟨-, shrinks⟩ := nineTenths_round onGrid inRange
      have shrunk := (shrinks (by omega)).2
      exact .of_next (ih _ shrunk _ (dvd_roundedBytes _) (roundedBytes_lt _))

theorem backpedalLoop_eq_none {answers : Nat → Nat} (null : ∀ call, answers call = 0)
    (small : requested ≤ 2304) (onGrid : kMinAllocationSize ∣ bytes)
    (inRange : bytes < sizeRange) (enough : requested ≤ bytes) (fuel : Nat) :
    backpedalLoop nineTenths requested fuel answers bytes = none := by
  induction fuel generalizing answers bytes with
  | zero => rfl
  | succ fuel ih =>
    obtain ⟨stays, shrinks⟩ := nineTenths_round onGrid inRange
    have still : requested ≤ roundedBytes (nineTenths bytes) := by
      by_cases settled : bytes ≤ 2304
      · rw [stays settled]
        exact enough
      · have kept := (shrinks (by omega)).1
        omega
    simp only [backpedalLoop, Nat.not_lt.2 still, null 0, if_true, if_false]
    exact ih (fun call => null (call + 1)) (dvd_roundedBytes _)
      (roundedBytes_lt _) still

/-- The back-off loop stops exactly if it starts below the request, the request
is above `2304` bytes, or the device answers with a block at some time. -/
theorem backpedal_stops_iff (onGrid : kMinAllocationSize ∣ bytes) (inRange : bytes < sizeRange) (answers : Nat → Nat) :
    BackpedalStops nineTenths requested answers bytes ↔
      bytes < requested ∨ 2304 < requested ∨ ∃ call, answers call ≠ 0 := by
  constructor
  · rintro ⟨fuel, stopped⟩
    by_contra running
    push Not at running
    obtain ⟨enough, small, null⟩ := running
    rw [backpedalLoop_eq_none null small onGrid inRange enough fuel] at stopped
    cases stopped
  · rintro (small | large | ⟨call, granted⟩)
    · exact .of_small answers (Nat.lt_of_le_of_lt (nineTenths_round_le onGrid inRange) small)
    · exact .of_large large answers onGrid inRange
    · exact .of_answer granted

theorem backpedal_stops_above_fixpoints : BackpedalStops nineTenths 2560 (fun _ => 0) 1048576 :=
  (backpedal_stops_iff (by decide) (by decide) _).2
    (Or.inr (Or.inl (by decide)))

/-- A request for one granule never comes back when the device is out of
memory. -/
theorem backpedal_runs_forever : ¬ ∀ bytes requested : Nat, kMinAllocationSize ∣ bytes → bytes < sizeRange →
      kMinAllocationSize ∣ requested → 0 < requested → ∀ answers : Nat → Nat,
        BackpedalStops nineTenths requested answers bytes := by
  intro all
  obtain ⟨fuel, stopped⟩ := all 1048576 256 (by decide) (by decide) (by decide) (by decide)
    fun _ => 0
  rw [backpedalLoop_eq_none (fun _ => rfl) (by decide) (by decide) (by decide) (by decide)]
    at stopped
  cases stopped

/-- The nine fixpoints are fixpoints of the binary32 product as well. -/
theorem backpedal_fixpoint {granules : Nat} (small : granules ≤ 9) :
    roundedBytes (backpedal (256 * granules)) = 256 * granules := by
  decide +revert

end Itex.Devices.Bfc.BFCAllocator
