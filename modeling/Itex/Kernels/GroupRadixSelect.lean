import Itex.Utils.RadixUtils

/-!
Contract: the per-bit radix selector of a group (`group_radix_select.h`).

Owns: the masks, the loop over the bits, and that no selection of 64-bit keys starts.

Does not own: the exclusive sum over the group, taken as the sum in the order of the work items,
and the threshold.
-/

namespace Itex.Kernels

open Utils

/-- What a run of the loop comes to. -/
inductive Selection (α : Type)
  /-- The value of a shift is not defined. -/
  | undefined
  | running
  | selected (out : Nat → Option α)

structure GroupRadixPerBitSelector where
  kind : KeyKind

namespace GroupRadixPerBitSelector

variable {w : Nat} {V : Type}

/-- The variables of the loop; `out` holds the pairs that are written. -/
structure State (w : Nat) (V : Type) where
  beginBit : Nat
  bitMask : Nat
  desiredMask : Nat
  numSelected : Nat
  out : Nat → Option (BitVec w × V)

/-- `1u << bit`, of a `uint32_t`. -/
def bitAt (bit : Nat) : Option Nat := if bit < 32 then some (1 <<< bit) else none

/-- The pairs that agree with the desired bits so far. -/
def desired (ukeys : List (BitVec w × V)) (state : State w V) : List (BitVec w × V) :=
  ukeys.filter fun ukey => (ukey.1.toNat &&& state.bitMask) ^^^ state.desiredMask == 0

/-- The stores of a turn, at the offsets of an exclusive sum. -/
def store (selector : GroupRadixPerBitSelector) (numTopk : Nat) (enabled : List (BitVec w × V)) (state : State w V) :
    Nat → Option (BitVec w × V) := fun offset =>
  if offset < numTopk ∧ state.numSelected ≤ offset ∧ offset < state.numSelected + enabled.length then
    enabled[offset - state.numSelected]?.map fun ukey => (selector.kind.convertBack false ukey.1, ukey.2)
  else state.out offset

/-- The next bit is desired as well. -/
def lower (state : State w V) : Option (State w V) := do
  let bit ← bitAt (state.beginBit - 1)
  some { state with
    beginBit := state.beginBit - 1
    desiredMask := state.desiredMask ||| bit
    bitMask := state.bitMask ||| bit }

/-- One turn: what is written, or the state of the next one. -/
def turn (selector : GroupRadixPerBitSelector) (ukeys : List (BitVec w × V)) (numTopk endBit : Nat)
    (state : State w V) : Option ((Nat → Option (BitVec w × V)) ⊕ State w V) := do
  let enabled := desired ukeys state
  let groupCount := state.numSelected + enabled.length
  let state :=
    if groupCount > state.numSelected ∧ (groupCount ≤ numTopk ∨ state.beginBit = endBit) then
      { state with out := selector.store numTopk enabled state, numSelected := groupCount }
    else state
  if state.numSelected ≥ numTopk then some (.inl state.out)
  else if groupCount > numTopk then return .inr (← lower state)
  else
    let bit ← bitAt state.beginBit
    let state := { state with desiredMask := state.desiredMask ^^^ bit }
    if state.beginBit > endBit then return .inr (← lower state) else some (.inr state)

def loop (selector : GroupRadixPerBitSelector) (ukeys : List (BitVec w × V)) (numTopk endBit : Nat) :
    Nat → State w V → Selection (BitVec w × V)
  | 0, _ => .running
  | turns + 1, state =>
    match selector.turn ukeys numTopk endBit state with
    | none => .undefined
    | some (.inl out) => .selected out
    | some (.inr state) => selector.loop ukeys numTopk endBit turns state

/-- `InternalSelectImpl`, for at most `turns` turns. -/
def internalSelectImpl (selector : GroupRadixPerBitSelector) (turns : Nat) (keys : List (BitVec w × V))
    (numTopk beginBit endBit : Nat) : Selection (BitVec w × V) :=
  match bitAt beginBit with
  | none => .undefined
  | some bit => selector.loop (keys.map fun key => (selector.kind.convert false key.1, key.2)) numTopk endBit turns
    { beginBit, bitMask := bit, desiredMask := bit, numSelected := 0, out := fun _ => none }

/-- `SelectTopK` of pairs, with the default bits. -/
def selectTopK (selector : GroupRadixPerBitSelector) (turns : Nat) (keys : List (BitVec w × V)) (numTopk : Nat) :
    Selection (BitVec w × V) :=
  selector.internalSelectImpl turns keys numTopk (w - 1) 0

/-- The selection ends with `numTopk` of the pairs, and no key left out is greater than one of
these. -/
def Selects (selector : GroupRadixPerBitSelector) (keys : List (BitVec w × V)) (numTopk : Nat) : Prop :=
  ∃ turns out, selector.selectTopK turns keys numTopk = .selected out ∧
    ∃ places : List Nat, places.Nodup ∧ places.length = numTopk ∧
      (∀ j < numTopk, ∃ place, places[j]? = some place ∧ out j = keys[place]? ∧ place < keys.length) ∧
        ∀ kept ∈ places, ∀ place < keys.length, place ∉ places → ∀ key keptKey, keys[place]? = some key →
          keys[kept]? = some keptKey → selector.kind.convert false key.1 ≤ selector.kind.convert false keptKey.1

theorem bitAt_eq_none {bit : Nat} : bitAt bit = none ↔ 32 ≤ bit := by
  rw [bitAt]
  split <;> simp <;> omega

/-- The first mask of wider keys is past the end of its type. -/
theorem selectTopK_undefined (selector : GroupRadixPerBitSelector) (wide : 32 < w) (turns : Nat)
    (keys : List (BitVec w × V)) (numTopk : Nat) : selector.selectTopK turns keys numTopk = .undefined := by
  have noBit : bitAt (w - 1) = none := bitAt_eq_none.2 (by omega)
  rw [selectTopK, internalSelectImpl, noBit]

theorem selectTopK_64_fails (selector : GroupRadixPerBitSelector) (keys : List (BitVec 64 × V)) (numTopk : Nat) :
    ¬ selector.Selects keys numTopk := by
  rintro ⟨turns, out, ran, -⟩
  rw [selectTopK_undefined selector (by decide)] at ran
  cases ran

/-- The greater of two `int64` keys. -/
theorem selectTopK_of_two : ¬ GroupRadixPerBitSelector.Selects ⟨.signed⟩ [(5#64, 0), (7#64, 1)] 1 := by
  rintro ⟨turns, out, ran, -⟩
  cases turns <;> cases ran

end GroupRadixPerBitSelector

end Itex.Kernels
