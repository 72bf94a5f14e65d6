import Mathlib

/-!
Contract: edits of a directed graph that give one vertex new edges.

Owns: when such an edit keeps the graph without cycles, and when it keeps the order
that its paths give.
-/

namespace Itex.Lib

open Relation

variable {ν : Type} {edge edge' : ν → ν → Prop}

def Acyclic (edge : ν → ν → Prop) : Prop := ∀ v, ¬ TransGen edge v v

theorem Acyclic.of_rank (rank : ν → Nat) (rises : ∀ u v, edge u v → rank u < rank v) : Acyclic edge := by
  have pathRises : ∀ {u v}, TransGen edge u v → rank u < rank v := by
    intro u v path
    induction path with
    | single step => exact rises _ _ step
    | tail _ step ih => exact Nat.lt_trans ih (rises _ _ step)
  intro v cycle
  exact Nat.lt_irrefl _ (pathRises cycle)

theorem Acyclic.not_back (acyclic : Acyclic edge) {u v : ν} (step : edge u v) : ¬ ReflTransGen edge v u :=
  fun back => acyclic u (TransGen.head' step back)

/-- A graph without one of its vertices. -/
def Without (removed : ν) (edge : ν → ν → Prop) (u v : ν) : Prop := u ≠ removed ∧ v ≠ removed ∧ edge u v

/-! ## Absorbing a vertex -/

/-- Vertex `absorbed` hands its outgoing edges to `moved` over to `merged`, which of its
incoming edges keeps those from `kept`. -/
structure Absorbs (edge : ν → ν → Prop) (absorbed merged : ν) (kept stays moved : ν → Prop)
    (edge' : ν → ν → Prop) : Prop where
  different : absorbed ≠ merged
  subset : ∀ {u}, kept u → edge u merged
  into : ∀ {u}, edge' u merged ↔ kept u
  others : ∀ {u v}, v ≠ merged → (edge' u v ↔
    (u ≠ absorbed ∧ edge u v) ∨ (u = absorbed ∧ stays v) ∨ (u = merged ∧ moved v))
  outgoing : ∀ {v}, v ≠ merged → (edge absorbed v ↔ stays v ∨ moved v)
  elsewhere : ∀ {v}, stays v ∨ moved v → v ≠ merged

namespace Absorbs

variable {absorbed merged : ν} {kept stays moved : ν → Prop}

section

variable (absorbs : Absorbs edge absorbed merged kept stays moved edge')

include absorbs

theorem edge_moved {v : ν} (isMoved : moved v) : edge' merged v :=
  (absorbs.others (absorbs.elsewhere (.inr isMoved))).2 (.inr (.inr ⟨rfl, isMoved⟩))

theorem edge_other {u v : ν}
    (notAbsorbed : u ≠ absorbed) (notMerged : v ≠ merged) (step : edge u v) : edge' u v :=
  (absorbs.others notMerged).2 (.inl ⟨notAbsorbed, step⟩)

theorem old_edge {u v : ν} (step : edge' u v) : edge u v ∨ (u = merged ∧ moved v) := by
  by_cases isMerged : v = merged
  · rw [isMerged] at step ⊢
    exact .inl (absorbs.subset (absorbs.into.1 step))
  · rcases (absorbs.others isMerged).1 step with ⟨-, old⟩ | ⟨isAbsorbed, isStays⟩ | isMoved
    · exact .inl old
    · rw [isAbsorbed]
      exact .inl ((absorbs.outgoing isMerged).2 (.inl isStays))
    · exact .inr isMoved

theorem arrives {u : ν}
    (path : ReflTransGen edge' u merged) : u = merged ∨ ∃ k, kept k ∧ ReflTransGen edge u k := by
  induction path using ReflTransGen.head_induction_on with
  | refl => exact .inl rfl
  | head step _ ih =>
    rcases absorbs.old_edge step with old | isMoved
    · rcases ih with isMerged | ⟨k, isKept, rest⟩
      · rw [isMerged] at step
        exact .inr ⟨_, absorbs.into.1 step, .refl⟩
      · exact .inr ⟨k, isKept, .head old rest⟩
    · exact .inl isMoved.1

theorem old_path_or_meets {u v : ν} (path : ReflTransGen edge' u v) :
    ReflTransGen edge u v ∨ (ReflTransGen edge' u merged ∧ ReflTransGen edge' merged v) := by
  induction path using ReflTransGen.head_induction_on with
  | refl => exact .inl .refl
  | head step rest ih =>
    rcases absorbs.old_edge step with old | isMoved
    · rcases ih with oldRest | ⟨first, second⟩
      · exact .inl (.head old oldRest)
      · exact .inr ⟨.head step first, second⟩
    · rw [isMoved.1] at step ⊢
      exact .inr ⟨.refl, .head step rest⟩

theorem new_path (acyclic : Acyclic edge) {v k b : ν} (isMoved : moved v) (isKept : kept k)
    (path : ReflTransGen edge v b) (rest : ReflTransGen edge b k) : ReflTransGen edge' v b := by
  induction path with
  | refl => exact .refl
  | tail before step ih =>
    refine .tail (ih (.head step rest)) (absorbs.edge_other ?_ ?_ step)
    · intro isAbsorbed
      rw [isAbsorbed] at before
      have outgoing := (absorbs.outgoing (absorbs.elsewhere (.inr isMoved))).2 (.inr isMoved)
      exact acyclic.not_back outgoing before
    · intro isMerged
      rw [isMerged] at rest
      exact acyclic.not_back (absorbs.subset isKept) rest

/-- Absorbing a vertex closes a cycle exactly if a successor it hands over leads to a kept
predecessor. -/
theorem acyclic_iff (acyclic : Acyclic edge) : Acyclic edge' ↔ ∀ v k, moved v → kept k → ¬ ReflTransGen edge v k := by
  constructor
  · intro acyclic' v k isMoved isKept path
    have between := absorbs.new_path acyclic isMoved isKept path .refl
    exact acyclic' merged (TransGen.tail' (.head (absorbs.edge_moved isMoved) between)
      (absorbs.into.2 isKept))
  · intro apart
    have noReturn : ¬ TransGen edge' merged merged := by
      intro cycle
      obtain ⟨v, step, path⟩ := TransGen.head'_iff.1 cycle
      rcases absorbs.arrives path with isMerged | ⟨k, isKept, oldPath⟩
      · rw [isMerged] at step
        exact acyclic merged (.single (absorbs.subset (absorbs.into.1 step)))
      · rcases absorbs.old_edge step with old | isMoved
        · exact acyclic.not_back (absorbs.subset isKept) (.head old oldPath)
        · exact apart v k isMoved.2 isKept oldPath
    intro v cycle
    obtain ⟨w, step, path⟩ := TransGen.head'_iff.1 cycle
    rcases absorbs.old_path_or_meets path with oldPath | ⟨first, second⟩
    · rcases absorbs.old_edge step with old | isMoved
      · exact acyclic v (TransGen.head' old oldPath)
      · rw [isMoved.1] at cycle
        exact noReturn cycle
    · exact noReturn (TransGen.trans_right second (TransGen.head' step first))

end

section

variable (absorbs : Absorbs edge absorbed merged kept stays moved edge') (acyclic : Acyclic edge) {shared : ν}
  (only : ∀ {u}, edge u absorbed ↔ u = shared) (isShared : kept shared)

include absorbs acyclic only isShared

theorem leads_merged {u k : ν} (isKept : kept k) (path : ReflTransGen edge u k)
    (notAbsorbed : u ≠ absorbed) : TransGen (Without absorbed edge') u merged := by
  induction path using ReflTransGen.head_induction_on with
  | refl => exact .single ⟨notAbsorbed, absorbs.different.symm, absorbs.into.2 isKept⟩
  | @head u w step rest ih =>
    by_cases isAbsorbed : w = absorbed
    · rw [isAbsorbed] at step
      rw [only.1 step] at notAbsorbed ⊢
      exact .single ⟨notAbsorbed, absorbs.different.symm, absorbs.into.2 isShared⟩
    · have notMerged : w ≠ merged := by
        intro isMerged
        rw [isMerged] at rest
        exact acyclic.not_back (absorbs.subset isKept) rest
      exact .head ⟨notAbsorbed, isAbsorbed, absorbs.edge_other notAbsorbed notMerged step⟩
        (ih isAbsorbed)

/-- With all its outgoing edges handed over, removing `absorbed` keeps the order of the
others exactly if each predecessor of `merged` leads to a kept one. -/
theorem keepsOrder_iff (noneStays : ∀ v, ¬ stays v) :
    (∀ u v, u ≠ absorbed → v ≠ absorbed → TransGen edge u v → TransGen (Without absorbed edge') u v) ↔
      ∀ u, u ≠ absorbed → edge u merged → ∃ k, kept k ∧ ReflTransGen edge u k := by
  constructor
  · intro keeps u notAbsorbed step
    have path := keeps u merged notAbsorbed absorbs.different.symm (.single step)
    have weaker : Without absorbed edge' ≤ edge' := fun _ _ step => step.2.2
    have path' : TransGen edge' u merged := TransGen.mono weaker _ _ path
    rcases absorbs.arrives path'.to_reflTransGen with isMerged | found
    · rw [isMerged] at step
      exact absurd (.single step) (acyclic merged)
    · exact found
  · intro covered u v notAbsorbedU notAbsorbedV path
    have notShared : shared ≠ absorbed := by
      intro same
      exact acyclic absorbed (.single (only.2 same.symm))
    have survives : ∀ {a b : ν}, a ≠ absorbed → b ≠ absorbed → edge a b → TransGen (Without absorbed edge') a b := by
      intro a b notAbsorbedA notAbsorbedB step
      by_cases isMerged : b = merged
      · rw [isMerged] at step ⊢
        obtain ⟨k, isKept, toKept⟩ := covered a notAbsorbedA step
        exact absorbs.leads_merged acyclic only isShared isKept toKept notAbsorbedA
      · exact .single ⟨notAbsorbedA, notAbsorbedB, absorbs.edge_other notAbsorbedA isMerged step⟩
    have toMerged : Without absorbed edge' shared merged :=
      ⟨notShared, absorbs.different.symm, absorbs.into.2 isShared⟩
    -- Up to `absorbed` itself, a path leads to its one predecessor.
    have general : (v ≠ absorbed → TransGen (Without absorbed edge') u v) ∧
        (v = absorbed → ReflTransGen (Without absorbed edge') u shared) := by
      clear notAbsorbedV
      induction path with
      | single step =>
        refine ⟨fun notAbsorbed => survives notAbsorbedU notAbsorbed step, fun isAbsorbed => ?_⟩
        rw [isAbsorbed] at step
        rw [only.1 step]
      | @tail b c before step ih =>
        refine ⟨fun notAbsorbed => ?_, fun isAbsorbed => ?_⟩
        · by_cases isAbsorbed : b = absorbed
          · have toShared := ih.2 isAbsorbed
            rw [isAbsorbed] at step
            by_cases isMerged : c = merged
            · rw [isMerged]
              exact TransGen.tail' toShared toMerged
            · rcases (absorbs.outgoing isMerged).1 step with isStays | isMoved
              · exact absurd isStays (noneStays c)
              · exact TransGen.tail' (.tail toShared toMerged)
                  ⟨absorbs.different.symm, notAbsorbed, absorbs.edge_moved isMoved⟩
          · exact (ih.1 isAbsorbed).trans (survives isAbsorbed notAbsorbed step)
        · rw [isAbsorbed] at step
          rw [only.1 step] at ih
          exact (ih.1 notShared).to_reflTransGen
    exact general.1 notAbsorbedV

end

end Absorbs

/-- Vertex `moved` has `parent` as its one predecessor. -/
structure Rehangs (edge : ν → ν → Prop) (moved parent : ν) (edge' : ν → ν → Prop) : Prop where
  into : ∀ {u}, edge' u moved ↔ u = parent
  others : ∀ {u v}, v ≠ moved → (edge' u v ↔ edge u v)

/-- Moving a vertex closes a cycle exactly if the vertex leads to its new parent. -/
theorem Rehangs.acyclic_iff {moved parent : ν} (rehangs : Rehangs edge moved parent edge')
    (acyclic : Acyclic edge) : Acyclic edge' ↔ ¬ ReflTransGen edge moved parent := by
  constructor
  · intro acyclic' path
    have lifted : ∀ {b : ν}, ReflTransGen edge moved b → ReflTransGen edge' moved b := by
      intro b toB
      induction toB with
      | refl => exact .refl
      | tail before step ih =>
        refine .tail ih ((rehangs.others ?_).2 step)
        intro isMoved
        rw [isMoved] at step
        exact acyclic.not_back step before
    exact acyclic' moved (TransGen.tail' (lifted path) (rehangs.into.2 rfl))
  · intro apart
    -- A new path is an old one, or enters `moved` from `parent` on the way.
    have cases_path : ∀ {u v : ν}, ReflTransGen edge' u v →
        ReflTransGen edge u v ∨ (ReflTransGen edge u parent ∧ ReflTransGen edge' moved v) := by
      intro u v path
      induction path using ReflTransGen.head_induction_on with
      | refl => exact .inl .refl
      | @head u w step rest ih =>
        by_cases isMoved : w = moved
        · rw [isMoved] at step rest
          rw [rehangs.into.1 step]
          exact .inr ⟨.refl, rest⟩
        · have old := (rehangs.others isMoved).1 step
          rcases ih with oldRest | ⟨first, second⟩
          · exact .inl (.head old oldRest)
          · exact .inr ⟨.head old first, second⟩
    have fromMoved : ∀ {v : ν}, ReflTransGen edge' moved v → ReflTransGen edge moved v := by
      intro v path
      rcases cases_path path with old | ⟨first, -⟩
      · exact old
      · exact absurd first apart
    intro v cycle
    obtain ⟨w, step, path⟩ := TransGen.head'_iff.1 cycle
    by_cases isMoved : w = moved
    · rw [isMoved] at step path
      rw [rehangs.into.1 step] at path
      exact apart (fromMoved path)
    · have old := (rehangs.others isMoved).1 step
      rcases cases_path path with oldPath | ⟨first, second⟩
      · exact acyclic.not_back old oldPath
      · exact apart (.trans (fromMoved second) (.head old first))

/-- Vertex `source` also leads to the vertices `further`. -/
def Extends (edge : ν → ν → Prop) (source : ν) (further : ν → Prop) (edge' : ν → ν → Prop) : Prop :=
  ∀ u v, edge' u v ↔ edge u v ∨ (u = source ∧ further v)

/-- The edges close a cycle exactly if one of the vertices leads back. -/
theorem Extends.acyclic_iff {source : ν} {further : ν → Prop} (extends_ : Extends edge source further edge')
    (acyclic : Acyclic edge) : Acyclic edge' ↔ ∀ v, further v → ¬ ReflTransGen edge v source := by
  constructor
  · intro acyclic' v isFurther path
    have lifted := ReflTransGen.mono (fun u w step => (extends_ u w).2 (.inl step)) _ _ path
    exact acyclic' source (.head' ((extends_ source v).2 (.inr ⟨rfl, isFurther⟩)) lifted)
  · intro apart
    -- A path is an old one, or leaves by a new edge, the last one of it, and does not return.
    have cases_path : ∀ {u v : ν}, TransGen edge' u v →
        TransGen edge u v ∨ (ReflTransGen edge u source ∧ ∃ w, further w ∧ ReflTransGen edge w v) := by
      intro u v path
      induction path with
      | single step =>
        rcases (extends_ _ _).1 step with old | ⟨rfl, isFurther⟩
        · exact .inl (.single old)
        · exact .inr ⟨.refl, _, isFurther, .refl⟩
      | tail _ step ih =>
        rcases (extends_ _ _).1 step with old | ⟨rfl, isFurther⟩
        · grind
        · grind
    intro v cycle
    rcases cases_path cycle with old | ⟨toSource, w, isFurther, after⟩
    · exact acyclic v old
    · exact apart w isFurther (after.trans toSource)

end Itex.Lib
