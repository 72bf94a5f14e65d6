import Itex.Devices.Bfc.Operations

/-!
Contract: runs of `BFCAllocator` against a client and a device.

Owns: the events of a run, the client's live allocations, reachable states under a
condition on each event, and the invariant that ties them to the chunks in use.

The client asks for `size_t` sizes and returns pointers it still holds; the
device answers each `ITEX_GPUMalloc` with null or with a block disjoint from all
earlier ones.
-/

namespace Itex.Devices.Bfc

open Itex.Lib Itex.Lib.Segments

variable {allocator : BFCAllocator} {allowed : BFCAllocator → Event → Prop} {config : Config} {p : Nat}
  {recycled : List Nat} {system : System}

theorem mem_eraseP_fst {entries : List (Nat × Nat)} (single : (entries.map Prod.fst).Nodup)
    {other : Nat × Nat} : other ∈ entries.eraseP (fun entry => decide (entry.1 = p)) ↔
      other ∈ entries ∧ other.1 ≠ p := by
  induction entries with
  | nil => simp
  | cons first rest ih =>
    grind

/-- One call, with the device's answers during it. -/
inductive Event where
  | allocateRaw (numBytes : Nat) (answers : List Nat)
  | deallocateRaw (ptr : Nat)
deriving DecidableEq, Repr

/-- The allocator and the allocations the client holds, as pointer and
requested size. -/
structure System where
  allocator : BFCAllocator
  live : List (Nat × Nat)
deriving DecidableEq, Repr

namespace System

/-- One call of the client. -/
def step (config : Config) (system : System) : Event → Except Stop System
  | .allocateRaw numBytes answers =>
    if numBytes < sizeRange then do
      let (ptr, allocator, _) ← system.allocator.allocateRaw config numBytes answers
      return { allocator := allocator
               live := if ptr = 0 then system.live else (ptr, numBytes) :: system.live }
    else .error .refused
  | .deallocateRaw ptr =>
    if ptr ∈ system.live.map Prod.fst then do
      let allocator ← system.allocator.deallocateRaw ptr
      return { allocator := allocator
               live := system.live.eraseP fun allocation => allocation.1 = ptr }
    else .error .refused

/-- The states a run can reach when every event meets the condition in the state
it is applied to. -/
inductive Reachable (config : Config) (allowed : BFCAllocator → Event → Prop) : System → Prop
  | start {allocator : BFCAllocator} : construct config = .ok allocator → Reachable config allowed ⟨allocator, []⟩
  | step {system system' : System} {event : Event} :
      Reachable config allowed system → allowed system.allocator event →
      step config system event = .ok system' → Reachable config allowed system'

theorem Reachable.mono {allowed' : BFCAllocator → Event → Prop} (reachable : Reachable config allowed system)
    (weaker : ∀ allocator event, allowed allocator event → allowed' allocator event) :
    Reachable config allowed' system := by
  induction reachable with
  | start built => exact .start built
  | step _ meets taken ih =>
    exact .step ih (weaker _ _ meets) taken

/-- A whole run from the constructor. -/
def run (config : Config) (events : List Event) : Except Stop System := do
  let allocator ← construct config
  events.foldlM (step config) ⟨allocator, []⟩

theorem reachable_foldlM {events : List Event} (each : ∀ event ∈ events, ∀ allocator, allowed allocator event)
    {system' : System} (reachable : Reachable config allowed system)
    (done : events.foldlM (step config) system = .ok system') : Reachable config allowed system' := by
  induction events generalizing system with
  | nil =>
    cases done
    exact reachable
  | cons event rest ih =>
    rw [List.foldlM_cons] at done
    obtain ⟨middle, taken, continued⟩ := bind_ok.1 done
    exact ih (fun other mem => each other (by simp [mem]))
      (.step reachable (each event (by simp) _) taken) continued

/-- A run whose events meet the condition in every state reaches its last
state. -/
theorem reachable_run {events : List Event} (each : ∀ event ∈ events, ∀ allocator, allowed allocator event)
    (done : run config events = .ok system) : Reachable config allowed system := by
  obtain ⟨allocator, built, continued⟩ := bind_ok.1 done
  exact reachable_foldlM each (.start built) continued

/-! ## The client's view -/

/-- The allocator is well formed and the chunks in use are exactly the client's
live allocations, each at least as long as requested. -/
structure Tracks (system : System) (recycled : List Nat) : Prop where
  inv : system.allocator.Inv recycled []
  onGrid : kMinAllocationSize ∣ system.allocator.currRegionAllocationBytes
  single : (system.live.map Prod.fst).Nodup
  held : ∀ allocation ∈ system.live, ∃ size, allocation.2 ≤ size ∧ system.allocator.Used recycled allocation.1 size
  known : ∀ p size, system.allocator.Used recycled p size → p ∈ system.live.map Prod.fst

def Safe (allocator : BFCAllocator) : Event → Prop
  | .allocateRaw numBytes _ => allocator.SafeRequest numBytes
  | .deallocateRaw _ => True

theorem construct_eq (built : construct config = .ok allocator) :
    allocator.chunks = [] ∧ allocator.bins = List.replicate kNumBins [] ∧
      allocator.regions = [] ∧ allocator.freeChunksList = kInvalidChunkHandle ∧
      allocator.totalRegionAllocatedBytes = 0 ∧
      allocator.currRegionAllocationBytes = roundedBytes allocator.memoryLimit ∧
      allocator.memoryLimit ≤ config.globalMemSize := by
  obtain ⟨limit, limited, built⟩ := bind_ok.1 built
  obtain ⟨-, -, ran⟩ := bind_ok.1 built
  cases ran
  refine ⟨rfl, rfl, rfl, rfl, rfl, rfl, ?_⟩
  unfold initialMemoryLimit at limited
  split at limited
  · obtain ⟨-, -, isLimit⟩ := bind_ok.1 limited
    cases isLimit
    exact Nat.sub_le _ _
  · cases limited
    exact Nat.le_refl _

theorem tracks_start (built : construct config = .ok allocator) : Tracks ⟨allocator, []⟩ [] := by
  obtain ⟨chunks, bins, regions, list, -, curr, -⟩ := construct_eq built
  have noLive : ∀ h, ¬ (allocator.graph []).live h := by
    intro h hLive
    have inTable := hLive.1
    rw [chunks] at inTable
    cases inTable
  have noChunk : ∀ b, allocator.freeChunks b = [] := by
    intro b
    rw [BFCAllocator.freeChunks, bins]
    simp only [List.getD_eq_getElem?_getD, List.getElem?_replicate]
    split <;> rfl
  refine { inv := ?_, onGrid := ?_, single := List.nodup_nil, held := ?_, known := ?_ }
  · refine
      { regionsOk := ?_, wellFormed := ?_, indexes := ?_, chain := list, nodup := List.nodup_nil,
        bounded := ?_, idle := ?_, binned := ?_, parked := ?_, separated := ?_ }
    · rw [regions]
      exact ⟨by simp, List.Pairwise.nil⟩
    · have noSpan : spansOf allocator.regions = ∅ := by
        rw [regions]
        ext span
        simp [spansOf]
      rw [noSpan]
      constructor
      all_goals first
        | exact fun h hLive => absurd hLive (noLive h)
        | exact fun h _ hLive => absurd hLive (noLive h)
        | exact fun span mem => absurd mem (Set.notMem_empty span)
    · intro p h
      rw [regions]
      simp only [slotAt, reduceCtorEq, false_iff]
      exact fun found => noLive h found.1
    · simp [chunks]
    · intro h mem
      cases mem
    · refine ⟨by simp [bins], ?_, ?_, ?_⟩
      · intro b
        rw [noChunk b]
        exact List.Pairwise.nil
      · intro b h
        rw [noChunk b]
        simp only [List.not_mem_nil, false_iff]
        exact fun found => noLive h found.1.1
      · intro h settled
        exact absurd settled.1 (noLive h)
    · intro h mem
      cases mem
    · intro h k hLive
      exact absurd hLive (noLive h)
  · rw [curr]
    exact dvd_roundedBytes _
  · intro allocation mem
    cases mem
  · rintro p size ⟨h, hLive, -⟩
    exact absurd hLive (noLive h)

theorem tracks_allocateRaw (tracks : Tracks system recycled) {numBytes : Nat} {answers rest : List Nat}
    (safe : system.allocator.SafeRequest numBytes)
    (run : system.allocator.allocateRaw config numBytes answers = .ok (p, allocator, rest)) :
    ∃ recycled', Tracks ⟨allocator, if p = 0 then system.live else (p, numBytes) :: system.live⟩ recycled' := by
  have returns := BFCAllocator.allocateRaw_returns tracks.inv tracks.onGrid config answers safe
  rw [run] at returns
  obtain ⟨recycled', inv', -, served⟩ := returns
  dsimp only at inv' served
  have onGrid' : kMinAllocationSize ∣ allocator.currRegionAllocationBytes :=
    BFCAllocator.curr_allocateRaw tracks.onGrid run
  rcases served with ⟨rfl, used⟩ | ⟨nonNull, fresh, size, enough, used⟩
  · refine ⟨recycled', { inv := inv', onGrid := onGrid', single := ?_, held := ?_, known := ?_ }⟩
    · simpa using tracks.single
    · intro allocation mem
      obtain ⟨size, enough, held⟩ := tracks.held allocation (by simpa using mem)
      exact ⟨size, enough, (used _ _).2 held⟩
    · intro q m inUse
      simpa using tracks.known q m ((used q m).1 inUse)
  · refine ⟨recycled', { inv := inv', onGrid := onGrid', single := ?_, held := ?_, known := ?_ }⟩
    · simp only [if_neg nonNull, List.map_cons, List.nodup_cons]
      refine ⟨?_, tracks.single⟩
      intro mem
      obtain ⟨allocation, inLive, same⟩ := List.mem_map.1 mem
      obtain ⟨m, -, held⟩ := tracks.held allocation inLive
      exact fresh m (same ▸ held)
    · simp only [if_neg nonNull, List.mem_cons]
      rintro allocation (rfl | mem)
      · exact ⟨size, enough, (used _ _).2 (Or.inr ⟨rfl, rfl⟩)⟩
      · obtain ⟨m, enough', held⟩ := tracks.held allocation mem
        exact ⟨m, enough', (used _ _).2 (Or.inl held)⟩
    · intro q m inUse
      simp only [if_neg nonNull, List.map_cons, List.mem_cons]
      rcases (used q m).1 inUse with old | ⟨same, -⟩
      · exact Or.inr (tracks.known q m old)
      · exact Or.inl same

theorem tracks_deallocateRaw (tracks : Tracks system recycled) (mem : p ∈ system.live.map Prod.fst) :
    ∃ allocator recycled', system.allocator.deallocateRaw p = .ok allocator ∧
      Tracks ⟨allocator, system.live.eraseP fun allocation => allocation.1 = p⟩ recycled' := by
  obtain ⟨allocation, inLive, rfl⟩ := List.mem_map.1 mem
  obtain ⟨size, -, held⟩ := tracks.held allocation inLive
  obtain ⟨allocator, recycled', done, inv', used, -⟩ :=
    BFCAllocator.deallocateRaw_spec tracks.inv held
  have remaining : ∀ other, other ∈ system.live.eraseP
      (fun entry => decide (entry.1 = allocation.1)) ↔
      other ∈ system.live ∧ other.1 ≠ allocation.1 := by
    intro other
    exact mem_eraseP_fst tracks.single
  refine ⟨allocator, recycled', done, { inv := inv', onGrid := ?_, single := ?_, held := ?_, known := ?_ }⟩
  · rw [(BFCAllocator.framed_books.deallocateRaw done).curr]
    exact tracks.onGrid
  · exact tracks.single.sublist (List.Sublist.map _ List.eraseP_sublist)
  · intro other inRest
    obtain ⟨inOld, away⟩ := (remaining other).1 inRest
    obtain ⟨m, enough, inUse⟩ := tracks.held other inOld
    exact ⟨m, enough, (used _ _).2 ⟨inUse, away⟩⟩
  · intro q m inUse
    obtain ⟨old, away⟩ := (used q m).1 inUse
    obtain ⟨other, inOld, rfl⟩ := List.mem_map.1 (tracks.known q m old)
    exact List.mem_map.2 ⟨other, (remaining other).2 ⟨inOld, away⟩, rfl⟩

/-- A step takes the allocator through one of its two calls. -/
theorem step_allocator {system' : System} {event : Event} {holds : BFCAllocator → Prop}
    (allocates : ∀ numBytes answers p s' rest, event = .allocateRaw numBytes answers →
      system.allocator.allocateRaw config numBytes answers = .ok (p, s', rest) → holds s')
    (deallocates : ∀ p s', system.allocator.deallocateRaw p = .ok s' → holds s')
    (taken : step config system event = .ok system') : holds system'.allocator := by
  cases event with
  | allocateRaw numBytes answers =>
    simp only [step] at taken
    split at taken
    · obtain ⟨⟨p, allocator, rest⟩, run, ran⟩ := bind_ok.1 taken
      cases ran
      exact allocates _ _ _ _ _ rfl run
    · cases taken
  | deallocateRaw p =>
    simp only [step] at taken
    split at taken
    · obtain ⟨allocator, run, ran⟩ := bind_ok.1 taken
      cases ran
      exact deallocates _ _ run
    · cases taken

theorem tracks_step {system' : System}
    {event : Event} (tracks : Tracks system recycled) (safe : Safe system.allocator event)
    (taken : step config system event = .ok system') : ∃ recycled', Tracks system' recycled' := by
  cases event with
  | allocateRaw numBytes answers =>
    simp only [step] at taken
    split at taken
    · obtain ⟨⟨p, allocator, rest⟩, run, ran⟩ := bind_ok.1 taken
      cases ran
      exact tracks_allocateRaw tracks safe run
    · cases taken
  | deallocateRaw p =>
    simp only [step] at taken
    split at taken
    · next mem =>
      obtain ⟨allocator, recycled', done, tracks'⟩ := tracks_deallocateRaw tracks mem
      rw [ok_bind done] at taken
      cases taken
      exact ⟨recycled', tracks'⟩
    · cases taken

theorem tracks_of_reachable
    (reachable : Reachable config Safe system) : ∃ recycled, Tracks system recycled := by
  induction reachable with
  | start built => exact ⟨[], tracks_start built⟩
  | step _ safe taken ih =>
    obtain ⟨recycled, tracks⟩ := ih
    exact tracks_step tracks safe taken

theorem step_returns (config : Config)
    (tracks : Tracks system recycled) {event : Event} (safe : Safe system.allocator event) :
    BFCAllocator.Returns (step config system event) fun _ => True := by
  cases event with
  | allocateRaw numBytes answers =>
    simp only [step]
    split
    · apply (BFCAllocator.allocateRaw_returns tracks.inv tracks.onGrid config answers safe).bind
      intro _ _ _
      trivial
    · trivial
  | deallocateRaw p =>
    simp only [step]
    split
    · next mem =>
      obtain ⟨allocator, recycled', done, -⟩ := tracks_deallocateRaw tracks mem
      rw [ok_bind done]
      trivial
    · trivial

end System

end Itex.Devices.Bfc
