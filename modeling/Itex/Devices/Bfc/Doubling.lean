import Itex.Devices.Bfc.Guarantees

/-!
Contract: the region size `curr_region_allocation_bytes_` that `ExtendLarge`
doubles at each extension.

Owns: when the doubling loop of `ExtendLarge` ends, what one call does to the
region size, the condition under which a call does not clear it, and its
consequence for whole runs.
-/

namespace Itex.Devices.Bfc

open Itex.Lib

namespace BFCAllocator

variable {s s' : BFCAllocator} {requested curr got fuel : Nat} {answers answers' : List Nat}

/-- Enough doublings reach a request of at most `2 ^ 63` bytes before the size
wraps. -/
theorem growRegion_of_reach (small : requested ≤ 2 ^ 63) (reach : requested ≤ curr * 2 ^ fuel)
    (increased : Bool) : ∃ grown, growRegion requested (fuel + 1) curr increased = .ok grown := by
  induction fuel generalizing curr increased with
  | zero =>
    unfold growRegion
    rw [if_neg (by omega)]
    exact ⟨_, rfl⟩
  | succ fuel ih =>
    unfold growRegion
    by_cases below : curr < requested
    · have exact : wrap (curr * 2) = curr * 2 := Nat.mod_eq_of_lt (by
        simp only [sizeRange]
        omega)
      rw [if_pos below, exact]
      apply ih
      rw [Nat.pow_succ, Nat.mul_comm (2 ^ fuel), ← Nat.mul_assoc] at reach
      exact reach
    · rw [if_neg below]
      exact ⟨_, rfl⟩

/-- From a size that is not zero the loop ends for every request of at most
`2 ^ 63` bytes. -/
theorem growRegion_ends (nonzero : curr ≠ 0) (small : requested ≤ 2 ^ 63) :
    ∃ grown, growRegion requested 65 curr false = .ok grown := by
  apply growRegion_of_reach small
  have pos : 1 ≤ curr := Nat.one_le_iff_ne_zero.2 nonzero
  calc requested ≤ 2 ^ 63 := small
    _ ≤ 1 * 2 ^ 64 := by decide
    _ ≤ curr * 2 ^ 64 := Nat.mul_le_mul_right _ pos

theorem growRegion_of_le (enough : requested ≤ curr) (increased : Bool) :
    growRegion requested (fuel + 1) curr increased = .ok (curr, increased) := by
  unfold growRegion
  rw [if_neg (Nat.not_lt.2 enough)]

theorem growRegion_result {increased increased' : Bool} (inRange : curr < sizeRange)
    (run : growRegion requested fuel curr increased = .ok (got, increased')) : requested ≤ got ∧ got < sizeRange ∧
      ((got = curr ∧ increased' = increased) ∨ (curr < requested ∧ increased' = true)) := by
  induction fuel generalizing curr increased with
  | zero => cases run
  | succ fuel ih =>
    unfold growRegion at run
    split at run
    · next below =>
      obtain ⟨enough, gotInRange, outcome⟩ :=
        ih (Nat.mod_lt _ (by decide)) run
      refine ⟨enough, gotInRange, Or.inr ⟨below, ?_⟩⟩
      rcases outcome with ⟨-, same⟩ | ⟨-, isTrue⟩
      · exact same
      · exact isTrue
    · next enough =>
      cases run
      exact ⟨Nat.not_lt.1 enough, inRange, Or.inl ⟨rfl, rfl⟩⟩

/-! ## One call -/

/-- The region size is a `size_t` other than zero, and the doubling loop can
reach whatever the limit lets a client ask for. -/
structure Doubling (s : BFCAllocator) : Prop where
  nonzero : s.currRegionAllocationBytes ≠ 0
  inRange : s.currRegionAllocationBytes < sizeRange
  reaches : s.memoryLimit ≤ 2 ^ 63 ∨ s.memoryLimit ≤ s.currRegionAllocationBytes

theorem Doubling.congr (doubling : Doubling s) (limit : s'.memoryLimit = s.memoryLimit)
    (curr : s'.currRegionAllocationBytes = s.currRegionAllocationBytes) : Doubling s' := by
  refine ⟨?_, ?_, ?_⟩
  · rw [curr]
    exact doubling.nonzero
  · rw [curr]
    exact doubling.inRange
  · rw [limit, curr]
    exact doubling.reaches

theorem Doubling.growRegion_ends (doubling : Doubling s) (fits : requested ≤ s.memoryLimit) :
    ∃ grown, growRegion requested 65 s.currRegionAllocationBytes false = .ok grown := by
  rcases doubling.reaches with small | covers
  · exact BFCAllocator.growRegion_ends doubling.nonzero (Nat.le_trans fits small)
  · exact ⟨_, growRegion_of_le (Nat.le_trans fits covers) false⟩

theorem Doubling.grow (doubling : Doubling s) {increased : Bool} (fits : requested ≤ s.memoryLimit)
    (run : growRegion requested 65 s.currRegionAllocationBytes false = .ok (got, increased)) :
    Doubling { s with currRegionAllocationBytes := got } ∧
      (increased = false → got = s.currRegionAllocationBytes) := by
  obtain ⟨enough, inRange, outcome⟩ := growRegion_result doubling.inRange run
  have nonzero := doubling.nonzero
  rcases outcome with ⟨rfl, -⟩ | ⟨below, isTrue⟩
  · exact ⟨doubling.congr rfl rfl, fun _ => rfl⟩
  · refine ⟨⟨by dsimp only; omega, inRange, ?_⟩, ?_⟩
    · rcases doubling.reaches with small | covers
      · exact Or.inl small
      · exact absurd (Nat.le_trans fits covers) (Nat.not_le.2 below)
    · intro isFalse
      rw [isTrue] at isFalse
      cases isFalse

/-- The call makes `ExtendLarge` add a region, if the device answers with a
block. -/
def AsksDevice (config : Config) (s : BFCAllocator) (numBytes : Nat) : Prop :=
  config.allocMode = 1 ∧ numBytes ≠ 0 ∧
    (∃ s', s.findChunkPtr (binNumForSize (roundedBytes numBytes)) (roundedBytes numBytes)
      numBytes = .ok (0, s')) ∧
    roundedBytes numBytes ≤ s.availableBytes

/-- One more region may be added: doubling the region size does not clear it,
and what is left of the limit can still be reached by doubling. -/
def MayDouble (s : BFCAllocator) : Prop :=
  s.currRegionAllocationBytes ≠ 2 ^ 63 ∧ s.memoryLimit ≤ 2 ^ 63

theorem Doubling.double (doubling : Doubling s) (may : MayDouble s) :
    Doubling { s with currRegionAllocationBytes := wrap (s.currRegionAllocationBytes * 2) } := by
  have nonzero := doubling.nonzero
  have inRange := doubling.inRange
  have uncleared := may.1
  refine ⟨?_, Nat.mod_lt _ (by decide), Or.inl may.2⟩
  simp only [wrap, sizeRange] at *
  omega

theorem mallocBackingOff_answer {bytes p : Nat} (nonNull : p ≠ 0)
    (run : s.mallocBackingOff requested bytes answers = .ok (p, got, answers')) : p ∈ answers := by
  obtain ⟨⟨first, rest⟩, asked, followed⟩ := bind_ok.1 run
  unfold gpuMalloc at asked
  split at asked
  · cases asked
  · split at asked
    · cases asked
      dsimp only at followed
      split at followed
      · exact List.mem_cons_of_mem _ ((backOff_spec followed).2.2 nonNull).2.2
      · cases followed
        exact List.mem_cons_self
    · cases asked

/-- `ExtendLarge` keeps the region size usable, if it may double it once it has
got a block. -/
theorem doubling_extendLarge {config : Config} {extended : Bool} (doubling : Doubling s)
    (available : s.availableBytes ≤ s.memoryLimit)
    (may : requested ≤ s.availableBytes → (∃ p ∈ answers, p ≠ 0) → MayDouble s)
    (run : s.extendLarge config requested answers = .ok (extended, s', answers')) : Doubling s' := by
  unfold extendLarge at run
  dsimp only at run
  split at run
  · cases run
    exact doubling
  · next enough =>
    obtain ⟨⟨curr, increased⟩, grown, run⟩ := bind_ok.1 run
    obtain ⟨⟨memAddr, bytes, rest⟩, answered, run⟩ := bind_ok.1 run
    have fits : requested ≤ s.memoryLimit := by omega
    obtain ⟨doubling₁, same⟩ := doubling.grow fits grown
    dsimp only at run
    split at run
    · cases run
      exact doubling₁
    · next nonNull =>
      have mem := mallocBackingOff_answer nonNull answered
      have allowed := may (by omega) ⟨memAddr, mem, nonNull⟩
      obtain ⟨s₁, entered, ran⟩ := bind_ok.1 run
      cases ran
      have books := books_addRegion entered
      split at books
      · exact doubling₁.congr books.limit books.curr
      · next notIncreased =>
        have unchanged := same (by simpa using notIncreased)
        subst unchanged
        exact (doubling.double allowed).congr books.limit books.curr

/-- Outside mode 1 nothing writes the region size. -/
theorem curr_extend_of_mode {config : Config} {extended : Bool} (mode : config.allocMode ≠ 1)
    (run : s.extend config requested answers = .ok (extended, s', answers')) : s'.memoryLimit = s.memoryLimit ∧
      s'.currRegionAllocationBytes = s.currRegionAllocationBytes := by
  unfold extend at run
  rw [if_neg mode] at run
  split at run
  · unfold extendSmall at run
    dsimp only at run
    split at run
    · cases run
      exact ⟨rfl, rfl⟩
    · obtain ⟨⟨memAddr, rest⟩, answered, run⟩ := bind_ok.1 run
      dsimp only at run
      split at run
      · cases run
        exact ⟨rfl, rfl⟩
      · obtain ⟨s₁, entered, ran⟩ := bind_ok.1 run
        cases ran
        have books := books_addRegion entered
        exact ⟨books.limit, books.curr⟩
  · cases run
    exact ⟨rfl, rfl⟩

end BFCAllocator

namespace System

open BFCAllocator

variable {config : Config} {system system' : System}

/-! ## Runs -/

/-- The call does not degenerate the region size: when it makes `ExtendLarge`
add a region, doubling is still possible. -/
def DoublesSafely (config : Config) (allocator : BFCAllocator) : Event → Prop
  | .allocateRaw numBytes answers =>
    allocator.AsksDevice config numBytes → (∃ p ∈ answers, p ≠ 0) → allocator.MayDouble
  | .deallocateRaw _ => True

/-- The constructor starts from a region size other than zero: always in mode 1,
otherwise unless the device has no memory or rounding its size wraps. -/
def StartsNonzero (config : Config) : Prop :=
  config.allocMode = 1 ∨ 0 < config.globalMemSize ∧ config.globalMemSize ≤ sizeRange - kMinAllocationSize

instance (config : Config) : Decidable (StartsNonzero config) := by
  unfold StartsNonzero
  infer_instance

theorem initialMemoryLimit_bounds {limit : Nat} (starts : StartsNonzero config)
    (built : initialMemoryLimit config = .ok limit) : 0 < limit ∧ limit ≤ sizeRange - kMinAllocationSize := by
  have inRange := config.globalMemSize_lt
  unfold initialMemoryLimit at built
  split at built
  · obtain ⟨_, checked, ran⟩ := bind_ok.1 built
    cases ran
    have reserve : systemReservedMemory config.isXeHPC < config.globalMemSize := by
      unfold check at checked
      split at checked
      · next holds => exact of_decide_eq_true holds
      · cases checked
    have large : 256 ≤ systemReservedMemory config.isXeHPC := by
      unfold systemReservedMemory
      split <;> decide
    simp only [kMinAllocationSize] at *
    omega
  · next mode =>
    cases built
    rcases starts with isOne | bounds
    · exact absurd isOne mode
    · exact bounds

theorem doubling_start {allocator : BFCAllocator} (starts : StartsNonzero config)
    (built : construct config = .ok allocator) : allocator.Doubling := by
  obtain ⟨-, -, -, -, -, curr, -⟩ := construct_eq built
  have bounds : 0 < allocator.memoryLimit ∧ allocator.memoryLimit ≤ sizeRange - kMinAllocationSize := by
    obtain ⟨limit, limited, built⟩ := bind_ok.1 built
    obtain ⟨-, -, ran⟩ := bind_ok.1 built
    cases ran
    exact initialMemoryLimit_bounds starts limited
  have exact := roundedBytes_of_le bounds.2
  rw [← curr] at exact
  refine ⟨by omega, ?_, Or.inr (by omega)⟩
  rw [curr]
  exact roundedBytes_lt _

/-- In mode 1 the ledger holds in every run. -/
theorem fits_of_mode_one (mode : config.allocMode = 1) (allocator : BFCAllocator) (event : Event) :
    BufferFits config allocator event := by
  cases event with
  | allocateRaw numBytes answers =>
    intro isTwo
    rw [mode] at isTwo
    cases isTwo
  | deallocateRaw p => trivial

theorem availableBytes_le_limit {allocator : BFCAllocator} (ledger : allocator.Ledger) :
    allocator.availableBytes ≤ allocator.memoryLimit :=
  Nat.le_trans (Nat.le_add_left _ _) ledger.availableBytes_le

theorem doubling_extend {s s' : BFCAllocator} {requested : Nat} {answers answers' : List Nat}
    {extended : Bool} (doubling : s.Doubling) (ledger : config.allocMode = 1 → s.Ledger)
    (may : config.allocMode = 1 → requested ≤ s.availableBytes → (∃ p ∈ answers, p ≠ 0) → s.MayDouble)
    (run : s.extend config requested answers = .ok (extended, s', answers')) : s'.Doubling := by
  by_cases mode : config.allocMode = 1
  · unfold BFCAllocator.extend at run
    rw [if_pos mode] at run
    exact doubling_extendLarge doubling (availableBytes_le_limit (ledger mode)) (may mode) run
  · obtain ⟨limit, curr⟩ := curr_extend_of_mode mode run
    exact doubling.congr limit curr

theorem doubling_allocateRaw {s s' : BFCAllocator} {numBytes p : Nat} {answers answers' : List Nat}
    (doubling : s.Doubling) (ledger : config.allocMode = 1 → s.Ledger)
    (safe : DoublesSafely config s (.allocateRaw numBytes answers))
    (run : s.allocateRaw config numBytes answers = .ok (p, s', answers')) : s'.Doubling := by
  unfold BFCAllocator.allocateRaw at run
  split at run
  · cases run
    exact doubling
  · next nonzero =>
    obtain ⟨⟨first, s₁⟩, found, run⟩ := bind_ok.1 run
    have books := books_findChunkPtr found
    have doubling₁ := doubling.congr books.limit books.curr
    dsimp only at run
    split at run
    · cases run
      exact doubling₁
    · next null =>
      obtain ⟨⟨extended, s₂, rest⟩, grown, run⟩ := bind_ok.1 run
      have isNull : first = 0 := by simpa using null
      subst isNull
      have doubling₂ : s₂.Doubling := by
        refine doubling_extend doubling₁ (fun mode => (ledger mode).congr books) ?_ grown
        intro mode available answered
        rw [availableBytes, books.limit, books.total] at available
        have may := safe ⟨mode, nonzero, ⟨s₁, found⟩, available⟩ answered
        rw [MayDouble, books.curr, books.limit]
        exact may
      dsimp only at run
      split at run
      · obtain ⟨⟨second, s₃⟩, found₃, ran⟩ := bind_ok.1 run
        cases ran
        have books₃ := books_findChunkPtr found₃
        exact doubling₂.congr books₃.limit books₃.curr
      · cases run
        exact doubling₂

theorem doubling_step {event : Event} (doubling : system.allocator.Doubling)
    (ledger : config.allocMode = 1 → system.allocator.Ledger) (safe : DoublesSafely config system.allocator event)
    (taken : step config system event = .ok system') : system'.allocator.Doubling := by
  refine step_allocator (fun _ _ _ _ _ isEvent run => ?_) (fun _ _ run => ?_) taken
  · exact doubling_allocateRaw doubling ledger (isEvent ▸ safe) run
  · have books := framed_books.deallocateRaw run
    exact doubling.congr books.limit books.curr

theorem ledger_of_reachable {allowed : BFCAllocator → Event → Prop}
    (reachable : Reachable config allowed system) (mode : config.allocMode = 1) : system.allocator.Ledger := by
  induction reachable with
  | start built => exact ledger_start built
  | step _ _ taken ih =>
    exact ledger_step ih (fits_of_mode_one mode _ _) taken

theorem doubling_of_reachable (starts : StartsNonzero config)
    (reachable : Reachable config (DoublesSafely config) system) : system.allocator.Doubling := by
  induction reachable with
  | start built => exact doubling_start starts built
  | step reached safe taken ih =>
    exact doubling_step ih (ledger_of_reachable reached) safe taken

/-- The region size is not zero, and the doubling loop of `ExtendLarge` ends for
every request that passes the check against `available_bytes`. -/
def KeepsDoubling (config : Config) (allocator : BFCAllocator) : Prop :=
  allocator.currRegionAllocationBytes ≠ 0 ∧
    (config.allocMode = 1 → ∀ requested, requested ≤ allocator.availableBytes →
      ∃ grown, growRegion requested 65 allocator.currRegionAllocationBytes false = .ok grown)

/-- In every run whose extensions may double, the region size never
degenerates. -/
theorem keeps_doubling_of_safe (starts : StartsNonzero config)
    (reachable : Reachable config (DoublesSafely config) system) : KeepsDoubling config system.allocator := by
  have doubling := doubling_of_reachable starts reachable
  refine ⟨doubling.nonzero, ?_⟩
  intro mode requested available
  apply doubling.growRegion_ends
  exact Nat.le_trans available (availableBytes_le_limit (ledger_of_reachable reachable mode))

theorem keeps_doubling_after_one_allocation : ∃ system, run tinyDevice [.allocateRaw 1 [4096]] = .ok system ∧
      KeepsDoubling tinyDevice system.allocator := by
  have served : ∃ allocator system, construct tinyDevice = .ok allocator ∧
      allocator.currRegionAllocationBytes = 512 ∧ allocator.memoryLimit = 512 ∧
      step tinyDevice ⟨allocator, []⟩ (.allocateRaw 1 [4096]) = .ok system ∧
      run tinyDevice [.allocateRaw 1 [4096]] = .ok system := ⟨_, _, rfl, rfl, rfl, rfl, rfl⟩
  obtain ⟨allocator, system, built, curr, limit, taken, done⟩ := served
  refine ⟨system, done, keeps_doubling_of_safe (by decide) (.step (.start built) ?_ taken)⟩
  intro _ _
  refine ⟨?_, ?_⟩
  · rw [curr]
    decide
  · rw [limit]
    decide

/-- A device whose pool is 128 GiB, with regions of at most one mebibyte. -/
def cappedDevice : Config where
  globalMemSize := 138277814272
  globalMemSize_lt := by decide
  isXeHPC := false
  allocMode := 1
  limitMemorySizeInMb := some 1

/-- Requests of one mebibyte, each answered with the next free mebibyte. -/
def mebibyteRequests (count : Nat) : List Event :=
  (List.range count).map fun i => .allocateRaw 1048576 [1048576 * (i + 1)]

/-- Twenty-seven extensions by one mebibyte each clear the region size. -/
theorem doubling_degenerates : ¬ ∀ (config : Config) (system : System), config.allocMode = 1 →
      (∀ megabytes ∈ config.limitMemorySizeInMb, 0 < megabytes) →
      Reachable config (fun _ _ => True) system → KeepsDoubling config system.allocator := by
  intro all
  have cleared : (run cappedDevice (mebibyteRequests 27)).toOption.map (fun system =>
      system.allocator.currRegionAllocationBytes) = some 0 := by decide +kernel
  cases done : run cappedDevice (mebibyteRequests 27) with
  | error stop =>
    rw [done] at cleared
    cases cleared
  | ok system =>
    rw [done] at cleared
    have kept := (all cappedDevice system rfl (by decide)
      (reachable_run (by simp) done)).1
    simp only [Except.toOption, Option.map_some, Option.some.injEq] at cleared
    exact kept cleared

end System

end Itex.Devices.Bfc
