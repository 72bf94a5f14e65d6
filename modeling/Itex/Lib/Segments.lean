import Mathlib

/-!
Contract: doubly linked segments that tile a set of address spans.

Owns: the segment graph, its well-formedness, the three edits that keep it (`split`,
`merge`, `addSpan`), the tiling it induces on each span, and its address index.

The links are optional handles and addresses are natural numbers.
-/

set_option autoImplicit false

namespace Itex.Lib.Segments

/-- A half-open range of addresses. -/
structure Span where
  base : Nat
  length : Nat
deriving DecidableEq, Repr

/-- One past the last address of a span. -/
def Span.stop (span : Span) : Nat := span.base + span.length

/-- Two spans share no address. -/
def Span.Disjoint (left right : Span) : Prop :=
  left.stop ≤ right.base ∨ right.stop ≤ left.base

/-- Segments by handle. Fields of a handle that is not live are arbitrary. -/
structure Graph (H : Type) where
  live : H → Prop
  ptr : H → Nat
  size : H → Nat
  prev : H → Option H
  next : H → Option H

variable {H : Type} {j k m : H}

/-- Two graphs with the same live handles and the same fields on them. -/
structure Graph.Agree (g g' : Graph H) : Prop where
  live : ∀ h, g'.live h ↔ g.live h
  ptr : ∀ h, g.live h → g'.ptr h = g.ptr h
  size : ∀ h, g.live h → g'.size h = g.size h
  prev : ∀ h, g.live h → g'.prev h = g.prev h
  next : ∀ h, g.live h → g'.next h = g.next h

def Graph.Inside (g : Graph H) (span : Span) (h : H) : Prop :=
  span.base ≤ g.ptr h ∧ g.ptr h + g.size h ≤ span.stop

/-- Where a segment sits in a span: inside it, on the grid of the span, with no
neighbour exactly at the two ends. -/
structure Graph.Located (g : Graph H) (unit : Nat) (span : Span) (h : H) : Prop where
  inside : g.Inside span h
  aligned : unit ∣ g.ptr h - span.base
  last : g.next h = none ↔ g.ptr h + g.size h = span.stop
  first : g.prev h = none ↔ g.ptr h = span.base

/-- The representation invariant of the segment graph over a set of spans. -/
structure WellFormed (unit : Nat) (spans : Set Span) (g : Graph H) : Prop where
  sizePos : ∀ h, g.live h → 0 < g.size h
  sizeUnit : ∀ h, g.live h → unit ∣ g.size h
  located : ∀ h, g.live h → ∃ span ∈ spans, g.Located unit span h
  nextLink : ∀ h k, g.live h → g.next h = some k → g.live k ∧ g.ptr k = g.ptr h + g.size h ∧ g.prev k = some h
  prevLink : ∀ h k, g.live h → g.prev h = some k → g.live k ∧ g.next k = some h
  disjoint : ∀ h k, g.live h → g.live k → h ≠ k → g.ptr h + g.size h ≤ g.ptr k ∨ g.ptr k + g.size k ≤ g.ptr h
  based : ∀ span ∈ spans, ∃ h, g.live h ∧ g.ptr h = span.base
  spansApart : ∀ left ∈ spans, ∀ right ∈ spans, left ≠ right → left.Disjoint right
  spansPos : ∀ span ∈ spans, 0 < span.length

/-- The address index of a graph: `at p` is the live segment that starts at
`p`, if there is one. -/
def Indexes (g : Graph H) (at_ : Nat → Option H) : Prop :=
  ∀ p h, at_ p = some h ↔ g.live h ∧ g.ptr h = p

section Basic

variable {unit : Nat} {spans : Set Span} {g : Graph H}

theorem WellFormed.ptr_injective (wf : WellFormed unit spans g) {h : H}
    (hLive : g.live h) (kLive : g.live k) (same : g.ptr h = g.ptr k) : h = k := by
  by_contra ne
  have hPos := wf.sizePos h hLive
  have kPos := wf.sizePos k kLive
  rcases wf.disjoint h k hLive kLive ne with before | before <;> omega

theorem WellFormed.inside_of_meets (wf : WellFormed unit spans g) {h : H} {span : Span}
    (hLive : g.live h) (mem : span ∈ spans) (above : span.base ≤ g.ptr h) (below : g.ptr h < span.stop) :
    g.Located unit span h := by
  obtain ⟨own, ownMember, located⟩ := wf.located h hLive
  by_cases same : own = span
  · exact same ▸ located
  · have pos := wf.sizePos h hLive
    obtain ⟨lower, upper⟩ := located.inside
    rcases wf.spansApart own ownMember span mem same with apart | apart <;> omega

theorem WellFormed.next_ne_self (wf : WellFormed unit spans g) {h : H}
    (hLive : g.live h) (link : g.next h = some k) : k ≠ h := by
  rintro rfl
  have pos := wf.sizePos k hLive
  obtain ⟨-, address, -⟩ := wf.nextLink k k hLive link
  omega

theorem WellFormed.located_next (wf : WellFormed unit spans g) {h : H} {span : Span}
    (hLive : g.live h) (mem : span ∈ spans) (located : g.Located unit span h)
    (link : g.next h = some k) : g.Located unit span k := by
  obtain ⟨kLive, address, -⟩ := wf.nextLink h k hLive link
  have notLast : g.ptr h + g.size h ≠ span.stop := by
    intro atEnd
    rw [located.last.2 atEnd] at link
    cases link
  obtain ⟨lower, upper⟩ := located.inside
  exact wf.inside_of_meets kLive mem (by omega) (by omega)

/-- Well-formedness only reads the live part of a graph. -/
theorem WellFormed.congr {g' : Graph H} (wf : WellFormed unit spans g) (agree : g.Agree g') :
    WellFormed unit spans g' where
  sizePos h hLive := by
    have old := (agree.live h).1 hLive
    rw [agree.size h old]
    exact wf.sizePos h old
  sizeUnit h hLive := by
    have old := (agree.live h).1 hLive
    rw [agree.size h old]
    exact wf.sizeUnit h old
  located h hLive := by
    have old := (agree.live h).1 hLive
    obtain ⟨span, mem, located⟩ := wf.located h old
    refine ⟨span, mem, ⟨?_, ?_, ?_, ?_⟩⟩
    · unfold Graph.Inside
      rw [agree.ptr h old, agree.size h old]
      exact located.inside
    · rw [agree.ptr h old]
      exact located.aligned
    · rw [agree.next h old, agree.ptr h old, agree.size h old]
      exact located.last
    · rw [agree.prev h old, agree.ptr h old]
      exact located.first
  nextLink h k hLive link := by
    have old := (agree.live h).1 hLive
    rw [agree.next h old] at link
    obtain ⟨kLive, address, back⟩ := wf.nextLink h k old link
    rw [agree.ptr k kLive, agree.ptr h old, agree.size h old, agree.prev k kLive]
    exact ⟨(agree.live k).2 kLive, address, back⟩
  prevLink h k hLive link := by
    have old := (agree.live h).1 hLive
    rw [agree.prev h old] at link
    obtain ⟨kLive, forward⟩ := wf.prevLink h k old link
    rw [agree.next k kLive]
    exact ⟨(agree.live k).2 kLive, forward⟩
  disjoint h k hLive kLive ne := by
    have hOld := (agree.live h).1 hLive
    have kOld := (agree.live k).1 kLive
    rw [agree.ptr h hOld, agree.ptr k kOld, agree.size h hOld, agree.size k kOld]
    exact wf.disjoint h k hOld kOld ne
  based span mem := by
    obtain ⟨h, hLive, address⟩ := wf.based span mem
    exact ⟨h, (agree.live h).2 hLive, (agree.ptr h hLive).trans address⟩
  spansApart := wf.spansApart
  spansPos := wf.spansPos

theorem Indexes.congr {g' : Graph H} {at_ : Nat → Option H} (index : Indexes g at_)
    (agree : g.Agree g') : Indexes g' at_ := by
  intro p h
  rw [index p h, agree.live h]
  constructor
  · rintro ⟨hLive, address⟩
    exact ⟨hLive, (agree.ptr h hLive).trans address⟩
  · rintro ⟨hLive, address⟩
    exact ⟨hLive, (agree.ptr h hLive).symm.trans address⟩

end Basic

section Edits

variable [DecidableEq H] {unit : Nat} {spans : Set Span} {g : Graph H} {at_ : Nat → Option H}

/-- Cut the segment of `h` after `n` addresses; the rest becomes `new`. -/
def split (g : Graph H) (h : H) (n : Nat) (new : H) : Graph H where
  live k := k = new ∨ g.live k
  ptr := Function.update g.ptr new (g.ptr h + n)
  size k := if k = new then g.size h - n else if k = h then n else g.size k
  prev k := if k = new then some h else if g.next h = some k then some new else g.prev k
  next k := if k = new then g.next h else if k = h then some new else g.next k

section Split

variable {h new : H} {n : Nat}

/-- The left half keeps the handle: its length is the cut, its right neighbour
is the new segment. -/
theorem split_left (hLive : g.live h) (fresh : ¬ g.live new) :
    (split g h n new).ptr h = g.ptr h ∧ (split g h n new).size h = n ∧ (split g h n new).next h = some new := by
  have apart : h ≠ new := fun same => fresh (same ▸ hLive)
  simp [split, apart]

theorem split_right (g : Graph H) (h : H) (n : Nat) (new : H) :
    (split g h n new).ptr new = g.ptr h + n ∧ (split g h n new).size new = g.size h - n ∧
      (split g h n new).next new = g.next h ∧ (split g h n new).prev new = some h := by
  simp [split]

/-- Any other segment keeps its place; only the right neighbour of the cut gets
a new left neighbour. -/
theorem split_other (fresh : ¬ g.live new) (kLive : g.live k) (kH : k ≠ h) :
    (split g h n new).ptr k = g.ptr k ∧ (split g h n new).size k = g.size k ∧ (split g h n new).next k = g.next k := by
  have apart : k ≠ new := fun same => fresh (same ▸ kLive)
  simp [split, apart, kH]

theorem split_prev_old (fresh : ¬ g.live new) (kLive : g.live k) :
    (split g h n new).prev k = if g.next h = some k then some new else g.prev k := by
  have apart : k ≠ new := fun same => fresh (same ▸ kLive)
  simp [split, apart]

theorem split_located_new (positive : 0 < n) (shorter : n < g.size h) (onGrid : unit ∣ n)
    {span : Span} (located : g.Located unit span h) : (split g h n new).Located unit span new := by
  obtain ⟨lower, upper⟩ := located.inside
  obtain ⟨ptrNew, sizeNew, nextNew, prevNew⟩ := split_right g h n new
  refine ⟨⟨?_, ?_⟩, ?_, ?_, ?_⟩
  · rw [ptrNew]
    omega
  · rw [ptrNew, sizeNew]
    omega
  · rw [ptrNew, show g.ptr h + n - span.base = (g.ptr h - span.base) + n by omega]
    exact Nat.dvd_add located.aligned onGrid
  · rw [nextNew, ptrNew, sizeNew, located.last]
    omega
  · rw [prevNew, ptrNew]
    constructor
    · intro impossible
      cases impossible
    · intro atBase
      omega

section

variable (wf : WellFormed unit spans g) (hLive : g.live h) (fresh : ¬ g.live new)

include wf hLive fresh

theorem split_located_old (shorter : n < g.size h) (kLive : g.live k) {span : Span}
    (located : g.Located unit span k) : (split g h n new).Located unit span k := by
  obtain ⟨lower, upper⟩ := located.inside
  have firstKept : (split g h n new).prev k = none ↔ g.ptr k = span.base := by
    rw [split_prev_old fresh kLive]
    split
    · next link =>
      -- The neighbour of the cut had `h` on its left, so it starts no span.
      have back := (wf.nextLink h k hLive link).2.2
      constructor
      · intro impossible
        cases impossible
      · intro atBase
        rw [located.first.2 atBase] at back
        cases back
    · exact located.first
  by_cases kH : k = h
  · subst kH
    obtain ⟨ptrEq, sizeEq, nextEq⟩ := split_left (n := n) kLive fresh
    refine ⟨⟨?_, ?_⟩, ?_, ?_, ?_⟩
    · rw [ptrEq]
      exact lower
    · rw [ptrEq, sizeEq]
      omega
    · rw [ptrEq]
      exact located.aligned
    · rw [nextEq, ptrEq, sizeEq]
      constructor
      · intro impossible
        cases impossible
      · intro atEnd
        omega
    · rw [ptrEq]
      exact firstKept
  · obtain ⟨ptrEq, sizeEq, nextEq⟩ := split_other (n := n) fresh kLive kH
    refine ⟨⟨?_, ?_⟩, ?_, ?_, ?_⟩
    · rw [ptrEq]
      exact lower
    · rw [ptrEq, sizeEq]
      exact upper
    · rw [ptrEq]
      exact located.aligned
    · rw [nextEq, ptrEq, sizeEq]
      exact located.last
    · rw [ptrEq]
      exact firstKept

theorem split_nextLink (shorter : n < g.size h) (kLive : (split g h n new).live k) (link : (split g h n new).next k = some m) :
    (split g h n new).live m ∧ (split g h n new).ptr m = (split g h n new).ptr k + (split g h n new).size k ∧
      (split g h n new).prev m = some k := by
  obtain ⟨ptrNew, sizeNew, nextNew, prevNew⟩ := split_right g h n new
  obtain ⟨ptrH, sizeH, nextH⟩ := split_left (n := n) hLive fresh
  rcases kLive with rfl | kLive
  · rw [nextNew] at link
    obtain ⟨mLive, address, back⟩ := wf.nextLink h m hLive link
    obtain ⟨ptrM, -, -⟩ := split_other (n := n) fresh mLive (wf.next_ne_self hLive link)
    refine ⟨Or.inr mLive, ?_, ?_⟩
    · rw [ptrM, ptrNew, sizeNew]
      omega
    · rw [split_prev_old fresh mLive, if_pos link]
  · by_cases kH : k = h
    · subst kH
      rw [nextH] at link
      cases link
      exact ⟨Or.inl rfl, by rw [ptrNew, ptrH, sizeH], prevNew⟩
    · obtain ⟨ptrK, sizeK, nextK⟩ := split_other (n := n) fresh kLive kH
      rw [nextK] at link
      obtain ⟨mLive, address, back⟩ := wf.nextLink k m kLive link
      have notShared : ¬ g.next h = some m := by
        intro shared
        rw [(wf.nextLink h m hLive shared).2.2] at back
        exact kH (Option.some.inj back).symm
      have ptrM : (split g h n new).ptr m = g.ptr m := by
        by_cases mH : m = h
        · subst mH
          exact ptrH
        · exact (split_other (n := n) fresh mLive mH).1
      exact ⟨Or.inr mLive, by rw [ptrM, ptrK, sizeK]; exact address,
        by rw [split_prev_old fresh mLive, if_neg notShared]; exact back⟩

theorem split_prevLink (kLive : (split g h n new).live k) (link : (split g h n new).prev k = some m) :
    (split g h n new).live m ∧ (split g h n new).next m = some k := by
  obtain ⟨ptrNew, sizeNew, nextNew, prevNew⟩ := split_right g h n new
  rcases kLive with rfl | kLive
  · rw [prevNew] at link
    cases link
    exact ⟨Or.inr hLive, (split_left hLive fresh).2.2⟩
  · rw [split_prev_old fresh kLive] at link
    split at link
    · next shared =>
      cases link
      exact ⟨Or.inl rfl, nextNew.trans shared⟩
    · next notShared =>
      obtain ⟨mLive, forward⟩ := wf.prevLink k m kLive link
      have mH : m ≠ h := fun same => notShared (same ▸ forward)
      exact ⟨Or.inr mLive, (split_other fresh mLive mH).2.2.trans forward⟩

theorem split_disjoint (shorter : n < g.size h) (kLive : (split g h n new).live k)
    (mLive : (split g h n new).live m) (ne : k ≠ m) :
    (split g h n new).ptr k + (split g h n new).size k ≤ (split g h n new).ptr m ∨
      (split g h n new).ptr m + (split g h n new).size m ≤ (split g h n new).ptr k := by
  obtain ⟨ptrNew, sizeNew, -, -⟩ := split_right g h n new
  obtain ⟨ptrH, sizeH, -⟩ := split_left (n := n) hLive fresh
  -- Each old segment is `h` or keeps its place beside all of `h`.
  have place : ∀ j, g.live j → (j = h ∨ ((split g h n new).ptr j = g.ptr j ∧ (split g h n new).size j = g.size j ∧
        (g.ptr j + g.size j ≤ g.ptr h ∨ g.ptr h + g.size h ≤ g.ptr j))) := by
    intro j jLive
    by_cases jH : j = h
    · exact Or.inl jH
    · obtain ⟨ptrJ, sizeJ, -⟩ := split_other (n := n) fresh jLive jH
      exact Or.inr ⟨ptrJ, sizeJ, wf.disjoint j h jLive hLive jH⟩
  rcases kLive with rfl | kLive <;> rcases mLive with rfl | mLive
  · exact absurd rfl ne
  · rcases place m mLive with rfl | ⟨ptrM, sizeM, beside⟩ <;> omega
  · rcases place k kLive with rfl | ⟨ptrK, sizeK, beside⟩ <;> omega
  · have old := wf.disjoint k m kLive mLive ne
    rcases place k kLive with rfl | ⟨ptrK, sizeK, besideK⟩ <;>
      rcases place m mLive with rfl | ⟨ptrM, sizeM, besideM⟩ <;> omega

theorem split_wellFormed (positive : 0 < n) (shorter : n < g.size h) (onGrid : unit ∣ n) :
    WellFormed unit spans (split g h n new) where
  sizePos k kCase := by
    rcases kCase with rfl | kLive
    · rw [(split_right g h n k).2.1]
      omega
    · by_cases kH : k = h
      · subst kH
        rw [(split_left kLive fresh).2.1]
        exact positive
      · rw [(split_other fresh kLive kH).2.1]
        exact wf.sizePos k kLive
  sizeUnit k kCase := by
    rcases kCase with rfl | kLive
    · rw [(split_right g h n k).2.1]
      exact Nat.dvd_sub (wf.sizeUnit h hLive) onGrid
    · by_cases kH : k = h
      · subst kH
        rw [(split_left kLive fresh).2.1]
        exact onGrid
      · rw [(split_other fresh kLive kH).2.1]
        exact wf.sizeUnit k kLive
  located k kCase := by
    rcases kCase with rfl | kLive
    · obtain ⟨span, mem, located⟩ := wf.located h hLive
      exact ⟨span, mem, split_located_new positive shorter onGrid located⟩
    · obtain ⟨span, mem, located⟩ := wf.located k kLive
      exact ⟨span, mem, split_located_old wf hLive fresh shorter kLive located⟩
  nextLink k m kCase link := split_nextLink wf hLive fresh shorter kCase link
  prevLink k m kCase link := split_prevLink wf hLive fresh kCase link
  disjoint k m kCase mCase ne := split_disjoint wf hLive fresh shorter kCase mCase ne
  based span mem := by
    obtain ⟨k, kLive, address⟩ := wf.based span mem
    refine ⟨k, Or.inr kLive, ?_⟩
    by_cases kH : k = h
    · subst kH
      exact (split_left kLive fresh).1.trans address
    · exact (split_other fresh kLive kH).1.trans address
  spansApart := wf.spansApart
  spansPos := wf.spansPos

end

theorem Indexes.grow (index : Indexes g at_) {g' : Graph H} {address : Nat} (fresh : ¬ g.live new)
    (live : ∀ k, g'.live k ↔ k = new ∨ g.live k) (ptr : g'.ptr = Function.update g.ptr new address)
    (unused : ∀ k, g.live k → g.ptr k ≠ address) : Indexes g' (Function.update at_ address (some new)) := by
  intro p k
  rw [live, ptr]
  by_cases isNew : k = new
  · subst isNew
    rw [Function.update_self, eq_comm, and_iff_right (Or.inl rfl)]
    by_cases atAddress : p = address
    · rw [atAddress, Function.update_self]
      exact iff_of_true rfl rfl
    · rw [Function.update_of_ne atAddress]
      exact iff_of_false (fun found => fresh ((index p k).1 found.symm).1) (Ne.symm atAddress)
  · rw [Function.update_of_ne isNew, or_iff_right isNew]
    by_cases atAddress : p = address
    · rw [atAddress, Function.update_self]
      exact iff_of_false (fun same => isNew (Option.some.inj same).symm) fun both => unused k both.1 both.2
    · rw [Function.update_of_ne atAddress]
      exact index p k

theorem split_indexes (wf : WellFormed unit spans g) (index : Indexes g at_)
    (hLive : g.live h) (fresh : ¬ g.live new) (positive : 0 < n) (shorter : n < g.size h) :
    Indexes (split g h n new) (Function.update at_ (g.ptr h + n) (some new)) := by
  refine index.grow fresh (fun _ => Iff.rfl) rfl ?_
  intro k kLive address
  have kH : k ≠ h := by
    rintro rfl
    omega
  have kPos := wf.sizePos k kLive
  rcases wf.disjoint k h kLive hLive kH with before | before <;> omega

end Split

/-- Absorb the segment of `k` into its left neighbour `h`. -/
def merge (g : Graph H) (h k : H) : Graph H where
  live m := g.live m ∧ m ≠ k
  ptr := g.ptr
  size m := if m = h then g.size h + g.size k else g.size m
  prev m := if g.next k = some m then some h else g.prev m
  next m := if m = h then g.next k else g.next m

omit [DecidableEq H] in
/-- What the two sides of a merge know about each other. -/
theorem merge_link_facts (wf : WellFormed unit spans g) {h : H} (hLive : g.live h) (link : g.next h = some k) :
    g.live k ∧ k ≠ h ∧ g.ptr k = g.ptr h + g.size h ∧ ∀ m, g.next k = some m → g.live m ∧ m ≠ h ∧ m ≠ k ∧
        g.ptr m = g.ptr h + g.size h + g.size k := by
  obtain ⟨kLive, kAddress, -⟩ := wf.nextLink h k hLive link
  refine ⟨kLive, wf.next_ne_self hLive link, kAddress, ?_⟩
  intro m forward
  obtain ⟨mLive, mAddress, -⟩ := wf.nextLink k m kLive forward
  have hPos := wf.sizePos h hLive
  refine ⟨mLive, ?_, wf.next_ne_self kLive forward, by omega⟩
  rintro rfl
  omega

theorem merge_located (wf : WellFormed unit spans g) {h : H} (hLive : g.live h)
    (link : g.next h = some k) (mLive : g.live m) : ∃ span ∈ spans, (merge g h k).Located unit span m := by
  obtain ⟨kLive, kH, kAddress, beyond⟩ := merge_link_facts wf hLive link
  obtain ⟨span, mem, located⟩ := wf.located m mLive
  obtain ⟨lower, upper⟩ := located.inside
  have notLinked : g.next k = some m → g.prev m ≠ none := by
    intro forward absent
    rw [(wf.nextLink k m kLive forward).2.2] at absent
    cases absent
  refine ⟨span, mem, ⟨⟨lower, ?_⟩, located.aligned, ?_, ?_⟩⟩
  · by_cases mH : m = h
    · subst mH
      obtain ⟨kLower, kUpper⟩ := (wf.located_next mLive mem located link).inside
      simp only [merge, if_true]
      omega
    · simpa only [merge, if_neg mH] using upper
  · by_cases mH : m = h
    · subst mH
      have kLast := (wf.located_next mLive mem located link).last
      simp only [merge, if_true, kLast]
      omega
    · simpa only [merge, if_neg mH] using located.last
  · simp only [merge]
    split
    · next forward =>
      constructor
      · intro impossible
        cases impossible
      · intro atBase
        exact absurd (located.first.2 atBase) (notLinked forward)
    · exact located.first

theorem merge_nextLink (wf : WellFormed unit spans g) {h : H} (hLive : g.live h)
    (link : g.next h = some k) (mLive : g.live m) (mK : m ≠ k) (forward : (merge g h k).next m = some j) :
    (merge g h k).live j ∧ (merge g h k).ptr j = (merge g h k).ptr m + (merge g h k).size m ∧
      (merge g h k).prev j = some m := by
  obtain ⟨kLive, kH, kAddress, beyond⟩ := merge_link_facts wf hLive link
  by_cases mH : m = h
  · subst mH
    simp only [merge, if_true] at forward
    obtain ⟨jLive, jH, jK, jAddress⟩ := beyond j forward
    refine ⟨⟨jLive, jK⟩, ?_, ?_⟩
    · simp only [merge, if_true]
      omega
    · simp only [merge, if_pos forward]
  · simp only [merge, if_neg mH] at forward
    obtain ⟨jLive, jAddress, jBack⟩ := wf.nextLink m j mLive forward
    have jK : j ≠ k := by
      rintro rfl
      rw [(wf.nextLink h j hLive link).2.2] at jBack
      exact mH (Option.some.inj jBack).symm
    have notShared : ¬ g.next k = some j := by
      intro shared
      rw [(wf.nextLink k j kLive shared).2.2] at jBack
      exact mK (Option.some.inj jBack).symm
    refine ⟨⟨jLive, jK⟩, ?_, ?_⟩
    · simpa only [merge, if_neg mH] using jAddress
    · simpa only [merge, if_neg notShared] using jBack

theorem merge_prevLink (wf : WellFormed unit spans g) {h : H} (hLive : g.live h)
    (link : g.next h = some k) (mLive : g.live m) (mK : m ≠ k) (back : (merge g h k).prev m = some j) :
    (merge g h k).live j ∧ (merge g h k).next j = some m := by
  obtain ⟨kLive, kH, kAddress, beyond⟩ := merge_link_facts wf hLive link
  simp only [merge] at back
  split at back
  · next forward =>
    cases back
    exact ⟨⟨hLive, Ne.symm kH⟩, by simpa only [merge, if_true] using forward⟩
  · next notShared =>
    obtain ⟨jLive, forward⟩ := wf.prevLink m j mLive back
    have jK : j ≠ k := fun same => notShared (same ▸ forward)
    have jH : j ≠ h := by
      rintro rfl
      rw [link] at forward
      exact mK (Option.some.inj forward).symm
    exact ⟨⟨jLive, jK⟩, by simpa only [merge, if_neg jH] using forward⟩

theorem merge_disjoint (wf : WellFormed unit spans g) {h : H} (hLive : g.live h)
    (link : g.next h = some k) (mLive : g.live m) (mK : m ≠ k) (jLive : g.live j)
    (jK : j ≠ k) (ne : m ≠ j) : (merge g h k).ptr m + (merge g h k).size m ≤ (merge g h k).ptr j ∨
      (merge g h k).ptr j + (merge g h k).size j ≤ (merge g h k).ptr m := by
  obtain ⟨kLive, kH, kAddress, beyond⟩ := merge_link_facts wf hLive link
  have mPos := wf.sizePos m mLive
  have jPos := wf.sizePos j jLive
  have kPos := wf.sizePos k kLive
  have old := wf.disjoint m j mLive jLive ne
  have mFromK := wf.disjoint m k mLive kLive mK
  have jFromK := wf.disjoint j k jLive kLive jK
  by_cases mH : m = h
  · subst mH
    simp only [merge, if_true, if_neg (Ne.symm ne)]
    omega
  · by_cases jH : j = h
    · subst jH
      simp only [merge, if_true, if_neg mH]
      omega
    · simpa only [merge, if_neg mH, if_neg jH] using old

theorem merge_wellFormed (wf : WellFormed unit spans g) {h : H} (hLive : g.live h)
    (link : g.next h = some k) : WellFormed unit spans (merge g h k) where
  sizePos m mCase := by
    have mPos := wf.sizePos m mCase.1
    simp only [merge]
    split
    · have hPos := wf.sizePos h hLive
      omega
    · exact mPos
  sizeUnit m mCase := by
    simp only [merge]
    split
    · exact Nat.dvd_add (wf.sizeUnit h hLive)
        (wf.sizeUnit k (merge_link_facts wf hLive link).1)
    · exact wf.sizeUnit m mCase.1
  located m mCase := merge_located wf hLive link mCase.1
  nextLink m j mCase forward := merge_nextLink wf hLive link mCase.1 mCase.2 forward
  prevLink m j mCase back := merge_prevLink wf hLive link mCase.1 mCase.2 back
  disjoint m j mCase jCase ne :=
    merge_disjoint wf hLive link mCase.1 mCase.2 jCase.1 jCase.2 ne
  based span mem := by
    obtain ⟨kLive, kH, kAddress, beyond⟩ := merge_link_facts wf hLive link
    obtain ⟨m, mLive, address⟩ := wf.based span mem
    refine ⟨m, ⟨mLive, ?_⟩, address⟩
    rintro rfl
    obtain ⟨own, ownMember, located⟩ := wf.located h hLive
    have mLocated := wf.located_next hLive ownMember located link
    obtain ⟨hLower, hUpper⟩ := located.inside
    obtain ⟨mLower, mUpper⟩ := mLocated.inside
    have hPos := wf.sizePos h hLive
    have mPos := wf.sizePos m mLive
    by_cases same : own = span
    · subst same
      omega
    · have spanPos := wf.spansPos span mem
      have apart := wf.spansApart own ownMember span mem same
      simp only [Span.Disjoint, Span.stop] at apart hUpper mUpper
      omega
  spansApart := wf.spansApart
  spansPos := wf.spansPos

theorem merge_indexes (wf : WellFormed unit spans g) (index : Indexes g at_) {h : H}
    (kLive : g.live k) : Indexes (merge g h k) (Function.update at_ (g.ptr k) none) := by
  intro p m
  by_cases atK : p = g.ptr k
  · subst atK
    simp only [Function.update_self, reduceCtorEq, false_iff]
    rintro ⟨⟨mLive, mK⟩, address⟩
    exact mK (wf.ptr_injective mLive kLive address)
  · rw [Function.update_of_ne atK, index p m]
    constructor
    · rintro ⟨mLive, address⟩
      exact ⟨⟨mLive, fun same => atK (by rw [← address, same])⟩, address⟩
    · rintro ⟨⟨mLive, -⟩, address⟩
      exact ⟨mLive, address⟩

/-- Enter a new span, covered by the single segment `new`. -/
def addSpan (g : Graph H) (new : H) (span : Span) : Graph H where
  live k := k = new ∨ g.live k
  ptr := Function.update g.ptr new span.base
  size := Function.update g.size new span.length
  prev := Function.update g.prev new none
  next := Function.update g.next new none

section AddSpan

variable {new : H} {span : Span}

omit [DecidableEq H] in
theorem addSpan_apart (wf : WellFormed unit spans g)
    (apart : ∀ other ∈ spans, other.Disjoint span) (kLive : g.live k) :
    g.ptr k + g.size k ≤ span.base ∨ span.stop ≤ g.ptr k := by
  obtain ⟨own, ownMember, located⟩ := wf.located k kLive
  obtain ⟨lower, upper⟩ := located.inside
  rcases apart own ownMember with before | before <;> omega

theorem addSpan_located (fresh : ¬ g.live new) (kLive : g.live k) {other : Span}
    (located : g.Located unit other k) : (addSpan g new span).Located unit other k := by
  have kNew : k ≠ new := fun same => fresh (same ▸ kLive)
  refine ⟨?_, ?_, ?_, ?_⟩
  · simpa only [addSpan, Graph.Inside, Function.update_of_ne kNew] using located.inside
  · simpa only [addSpan, Function.update_of_ne kNew] using located.aligned
  · simpa only [addSpan, Function.update_of_ne kNew] using located.last
  · simpa only [addSpan, Function.update_of_ne kNew] using located.first

theorem addSpan_wellFormed (wf : WellFormed unit spans g) (fresh : ¬ g.live new)
    (apart : ∀ other ∈ spans, other.Disjoint span) (positive : 0 < span.length) (onGrid : unit ∣ span.length) :
    WellFormed unit (insert span spans) (addSpan g new span) := by
  have newOf : ∀ k, g.live k → k ≠ new := fun k kLive same => fresh (same ▸ kLive)
  refine ⟨?_, ?_, ?_, ?_, ?_, ?_, ?_, ?_, ?_⟩
  · rintro k (rfl | kLive)
    · simpa only [addSpan, Function.update_self] using positive
    · simpa only [addSpan, Function.update_of_ne (newOf k kLive)] using wf.sizePos k kLive
  · rintro k (rfl | kLive)
    · simpa only [addSpan, Function.update_self] using onGrid
    · simpa only [addSpan, Function.update_of_ne (newOf k kLive)] using wf.sizeUnit k kLive
  · rintro k (rfl | kLive)
    · refine ⟨span, Set.mem_insert span spans, ?_⟩
      constructor <;> simp [addSpan, Graph.Inside, Span.stop]
    · obtain ⟨own, mem, located⟩ := wf.located k kLive
      exact ⟨own, Set.mem_insert_of_mem span mem, addSpan_located fresh kLive located⟩
  · rintro k m (rfl | kLive) link
    · simp [addSpan] at link
    · simp only [addSpan, Function.update_of_ne (newOf k kLive)] at link
      obtain ⟨mLive, address, back⟩ := wf.nextLink k m kLive link
      have mNew := newOf m mLive
      exact ⟨Or.inr mLive, by simpa only [addSpan, Function.update_of_ne mNew, Function.update_of_ne (newOf k kLive)]
          using address,
        by simpa only [addSpan, Function.update_of_ne mNew] using back⟩
  · rintro k m (rfl | kLive) link
    · simp [addSpan] at link
    · simp only [addSpan, Function.update_of_ne (newOf k kLive)] at link
      obtain ⟨mLive, forward⟩ := wf.prevLink k m kLive link
      exact ⟨Or.inr mLive, by simpa only [addSpan, Function.update_of_ne (newOf m mLive)] using forward⟩
  · rintro k m (rfl | kLive) (rfl | mLive) ne
    · exact absurd rfl ne
    · have outer := addSpan_apart wf apart mLive
      simp only [Span.stop] at outer
      simp only [addSpan, Function.update_self, Function.update_of_ne (newOf m mLive)]
      omega
    · have outer := addSpan_apart wf apart kLive
      simp only [Span.stop] at outer
      simp only [addSpan, Function.update_self, Function.update_of_ne (newOf k kLive)]
      omega
    · simpa only [addSpan, Function.update_of_ne (newOf k kLive),
        Function.update_of_ne (newOf m mLive)] using wf.disjoint k m kLive mLive ne
  · rintro other (rfl | mem)
    · exact ⟨new, Or.inl rfl, by simp only [addSpan, Function.update_self]⟩
    · obtain ⟨k, kLive, address⟩ := wf.based other mem
      exact ⟨k, Or.inr kLive, by simpa only [addSpan, Function.update_of_ne (newOf k kLive)] using address⟩
  · rintro left (rfl | leftMember) right (rfl | rightMember) ne
    · exact absurd rfl ne
    · exact (apart right rightMember).symm
    · exact apart left leftMember
    · exact wf.spansApart left leftMember right rightMember ne
  · rintro other (rfl | mem)
    · exact positive
    · exact wf.spansPos other mem

theorem addSpan_indexes (wf : WellFormed unit spans g) (index : Indexes g at_)
    (fresh : ¬ g.live new) (apart : ∀ other ∈ spans, other.Disjoint span) (positive : 0 < span.length) :
    Indexes (addSpan g new span) (Function.update at_ span.base (some new)) := by
  refine index.grow fresh (fun _ => Iff.rfl) rfl ?_
  intro k kLive address
  have kPos := wf.sizePos k kLive
  have outer := addSpan_apart wf apart kLive
  simp only [Span.stop] at outer
  omega

end AddSpan

end Edits

section Tiling

variable {unit : Nat} {spans : Set Span} {g : Graph H}

/-- The segments cover the addresses from `start` to `stop` in order, without
gap or overlap. -/
def Tiles (g : Graph H) : Nat → List H → Nat → Prop
  | start, [], stop => start = stop
  | start, h :: rest, stop => g.ptr h = start ∧ Tiles g (start + g.size h) rest stop

/-- Following `next` through the list, with `prev` its inverse; `before` is the
left neighbour of the first element. -/
def Linked (g : Graph H) : Option H → List H → Prop
  | _, [] => True
  | before, h :: rest => g.prev h = before ∧ g.next h = rest.head? ∧ Linked g (some h) rest

theorem exists_walk (wf : WellFormed unit spans g) {span : Span} (mem : span ∈ spans)
    {h : H} (hLive : g.live h) (located : g.Located unit span h) :
    ∃ rest, (∀ k ∈ h :: rest, g.live k) ∧ Tiles g (g.ptr h) (h :: rest) span.stop ∧
      Linked g (g.prev h) (h :: rest) := by
  obtain ⟨lower, upper⟩ := located.inside
  have positive := wf.sizePos h hLive
  cases forward : g.next h with
  | none =>
    refine ⟨[], by simpa using hLive, ⟨rfl, located.last.1 forward⟩, rfl, ?_, trivial⟩
    rw [forward]
    rfl
  | some k =>
    obtain ⟨kLive, address, back⟩ := wf.nextLink h k hLive forward
    have kLocated := wf.located_next hLive mem located forward
    obtain ⟨rest, restLive, tiles, linked⟩ := exists_walk wf mem kLive kLocated
    refine ⟨k :: rest, ?_, ⟨rfl, address ▸ tiles⟩, rfl, forward.trans rfl, ?_⟩
    · intro j inList
      rcases List.mem_cons.1 inList with rfl | inRest
      · exact hLive
      · exact restLive j inRest
    · rw [← back]
      exact linked
termination_by span.stop - g.ptr h
decreasing_by
  rw [address]
  omega

theorem mem_of_tiles (wf : WellFormed unit spans g) {start stop : Nat} {hs : List H}
    (tiles : Tiles g start hs stop) (each : ∀ k ∈ hs, g.live k) {h : H} (hLive : g.live h)
    (above : start ≤ g.ptr h) (below : g.ptr h < stop) : h ∈ hs := by
  induction hs generalizing start with
  | nil =>
    have same : start = stop := tiles
    omega
  | cons k rest ih =>
    obtain ⟨address, restTiles⟩ := tiles
    by_cases same : h = k
    · simp [same]
    · have kLive := each k (by simp)
      have hPos := wf.sizePos h hLive
      have kPos := wf.sizePos k kLive
      have beyond : start + g.size k ≤ g.ptr h := by
        rcases wf.disjoint h k hLive kLive same with before | before <;> omega
      exact List.mem_cons_of_mem k (ih restTiles
        (fun j inRest => each j (by simp [inRest])) beyond)

theorem exists_tiling (wf : WellFormed unit spans g) {span : Span} (mem : span ∈ spans) :
    ∃ hs, (∀ k ∈ hs, g.live k) ∧ Tiles g span.base hs span.stop ∧ Linked g none hs ∧
      ∀ h, g.live h → g.Inside span h → h ∈ hs := by
  obtain ⟨first, firstLive, address⟩ := wf.based span mem
  have spanPos := wf.spansPos span mem
  have located := wf.inside_of_meets firstLive mem (by omega) (by
    simp only [Span.stop]
    omega)
  obtain ⟨rest, each, tiles, linked⟩ := exists_walk wf mem firstLive located
  rw [located.first.2 address] at linked
  rw [address] at tiles
  refine ⟨first :: rest, each, tiles, linked, ?_⟩
  intro h hLive inside
  have positive := wf.sizePos h hLive
  obtain ⟨lower, upper⟩ := inside
  exact mem_of_tiles wf tiles each hLive lower (by omega)

end Tiling

section Canonical

variable {unit : Nat} {spans : Set Span}

/-- Two neighbours are never both free. -/
def Separated (g : Graph H) (free : H → Prop) : Prop :=
  ∀ h k, g.live h → g.next h = some k → ¬ (free h ∧ free k)

/-- A live segment of this address range with this status. -/
def Occupies (g : Graph H) (status : H → Prop) (base length : Nat) : Prop :=
  ∃ h, g.live h ∧ status h ∧ g.ptr h = base ∧ g.size h = length

theorem exists_cover {g : Graph H} (wf : WellFormed unit spans g) {span : Span}
    (mem : span ∈ spans) {p : Nat} (above : span.base ≤ p) (below : p < span.stop) :
    ∃ h, g.live h ∧ g.Located unit span h ∧ g.ptr h ≤ p ∧ p < g.ptr h + g.size h := by
  obtain ⟨hs, each, tiles, -, -⟩ := exists_tiling wf mem
  have cover : ∀ start, Tiles g start hs span.stop → start ≤ p → ∃ h ∈ hs, g.ptr h ≤ p ∧ p < g.ptr h + g.size h := by
    clear tiles each
    induction hs with
    | nil =>
      intro start atStop reached
      have same : start = span.stop := atStop
      omega
    | cons k rest ih =>
      intro start tiles reached
      obtain ⟨address, restTiles⟩ := tiles
      grind
  obtain ⟨h, inList, lower, upper⟩ := cover span.base tiles above
  have hLive := each h inList
  obtain ⟨own, ownMember, located⟩ := wf.located h hLive
  obtain ⟨ownLower, ownUpper⟩ := located.inside
  by_cases same : own = span
  · exact ⟨h, hLive, same ▸ located, lower, upper⟩
  · rcases wf.spansApart own ownMember span mem same with apart | apart <;> omega

variable {g g' : Graph H} {free free' : H → Prop}

section

variable (wf : WellFormed unit spans g) (wf' : WellFormed unit spans g') (separated : Separated g free)
  (separated' : Separated g' free')
  (used : ∀ p n, Occupies g (fun h => ¬ free h) p n ↔ Occupies g' (fun h => ¬ free' h) p n)

include wf wf' separated separated' used

/-- Where the free segments of one graph lie in another one with the same spans
and the same segments in use: each free segment is a maximal gap between
segments in use, so it appears unchanged. -/
theorem free_transfer {base length : Nat} (occupied : Occupies g free base length) : Occupies g' free' base length := by
  obtain ⟨h, hLive, hFree, rfl, rfl⟩ := occupied
  have hPos := wf.sizePos h hLive
  obtain ⟨span, mem, located⟩ := wf.located h hLive
  obtain ⟨hLower, hUpper⟩ := located.inside
  obtain ⟨k, kLive, kLocated, kLower, kUpper⟩ :=
    exists_cover wf' mem hLower (show g.ptr h < span.stop by omega)
  -- A segment in use in either graph is beside both `h` and `k`.
  have besideH : ∀ m, g'.live m → ¬ free' m → g'.ptr m + g'.size m ≤ g.ptr h ∨ g.ptr h + g.size h ≤ g'.ptr m := by
    intro m mLive mUsed
    obtain ⟨j, jLive, jUsed, jPtr, jSize⟩ := (used _ _).2 ⟨m, mLive, mUsed, rfl, rfl⟩
    have apart : j ≠ h := fun same => jUsed (same ▸ hFree)
    have := wf.disjoint j h jLive hLive apart
    omega
  have kFree : free' k := by
    by_contra kUsed
    have := besideH k kLive kUsed
    omega
  have besideK : ∀ m, g.live m → ¬ free m → g.ptr m + g.size m ≤ g'.ptr k ∨ g'.ptr k + g'.size k ≤ g.ptr m := by
    intro m mLive mUsed
    obtain ⟨j, jLive, jUsed, jPtr, jSize⟩ := (used _ _).1 ⟨m, mLive, mUsed, rfl, rfl⟩
    have apart : j ≠ k := fun same => jUsed (same ▸ kFree)
    have := wf'.disjoint j k jLive kLive apart
    omega
  obtain ⟨kInLower, kInUpper⟩ := kLocated.inside
  have sameStart : g'.ptr k = g.ptr h := by
    cases back : g.prev h with
    | none =>
      have atBase := located.first.1 back
      omega
    | some j =>
      obtain ⟨jLive, forward⟩ := wf.prevLink h j hLive back
      have address := (wf.nextLink j h jLive forward).2.1
      have jPos := wf.sizePos j jLive
      have jUsed : ¬ free j := fun jFree => separated j h jLive forward ⟨jFree, hFree⟩
      have := besideK j jLive jUsed
      omega
  have upTo : g'.ptr k + g'.size k ≤ g.ptr h + g.size h := by
    cases forward : g.next h with
    | none =>
      have atStop := located.last.1 forward
      omega
    | some j =>
      obtain ⟨jLive, address, -⟩ := wf.nextLink h j hLive forward
      have jPos := wf.sizePos j jLive
      have jUsed : ¬ free j := fun jFree => separated h j hLive forward ⟨hFree, jFree⟩
      have := besideK j jLive jUsed
      omega
  have downTo : g.ptr h + g.size h ≤ g'.ptr k + g'.size k := by
    cases forward : g'.next k with
    | none =>
      have atStop := kLocated.last.1 forward
      omega
    | some j =>
      obtain ⟨jLive, address, -⟩ := wf'.nextLink k j kLive forward
      have jPos := wf'.sizePos j jLive
      have jUsed : ¬ free' j := fun jFree => separated' k j kLive forward ⟨kFree, jFree⟩
      have := besideH j jLive jUsed
      omega
  exact ⟨k, kLive, kFree, sameStart, by omega⟩

theorem free_determined (base length : Nat) : Occupies g free base length ↔ Occupies g' free' base length :=
  ⟨free_transfer wf wf' separated separated' used,
    free_transfer wf' wf separated' separated fun p n => (used p n).symm⟩

end

theorem single_of_unused (wf : WellFormed unit spans g) (separated : Separated g free)
    {span : Span} (mem : span ∈ spans) (unused : ∀ h, g.live h → g.Inside span h → free h) :
    ∃ h, g.live h ∧ free h ∧ g.ptr h = span.base ∧ g.size h = span.length ∧ g.prev h = none ∧ g.next h = none := by
  obtain ⟨h, hLive, address⟩ := wf.based span mem
  have positive := wf.spansPos span mem
  have located := wf.inside_of_meets hLive mem (by omega) (by
    simp only [Span.stop]
    omega)
  have hFree := unused h hLive located.inside
  have alone : g.next h = none := by
    cases forward : g.next h with
    | none => rfl
    | some k =>
      obtain ⟨kLive, -, -⟩ := wf.nextLink h k hLive forward
      have kFree := unused k kLive (wf.located_next hLive mem located forward).inside
      exact absurd ⟨hFree, kFree⟩ (separated h k hLive forward)
  have atStop := located.last.1 alone
  simp only [Span.stop] at atStop
  exact ⟨h, hLive, hFree, address, by omega, located.first.2 address, alone⟩

end Canonical

end Itex.Lib.Segments
