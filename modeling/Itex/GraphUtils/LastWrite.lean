import Itex.GraphUtils.Removals

/-!
Contract: what the changes recorded for a node mean.

Owns: the fanins and attributes of a node as a plain map, the content that recorded changes stand
for, and what one more call does to it.
-/

namespace Itex.GraphUtils

open Itex.Graph (AttrValue TensorId NodeDef)

variable {index : Nat}

/-- Regular fanins by position, control fanins by name, attributes by name. -/
@[ext] structure Content where
  regular : Nat → Option FaninId
  controls : String → Bool
  attrs : String → Option AttrValue

namespace Content

def setRegular (content : Content) (index : Nat) (fanin : Option FaninId) : Content :=
  { content with regular := Function.update content.regular index fanin }

/-- A call as a plain write, which overrides what was there. -/
def write (content : Content) : NodeEdit → Content
  | .addOrUpdateRegularFanin (.ofNat index) fanin => content.setRegular index (some fanin)
  | .removeRegularFanin (.ofNat index) => content.setRegular index none
  | .addControllingFanin name => { content with controls := Function.update content.controls name true }
  | .removeControllingFanin name => { content with controls := Function.update content.controls name false }
  | .addOrUpdateNodeAttr name value => { content with attrs := Function.update content.attrs name (some value) }
  | .removeNodeAttr name => { content with attrs := Function.update content.attrs name none }
  | _ => content

/-- A call as the changes record it: a fanin that the node had is not written over another one. -/
def record (original content : Content) (edit : NodeEdit) : Content :=
  match edit with
  | .addOrUpdateRegularFanin (.ofNat index) fanin =>
    if original.regular index = some fanin ∧ content.regular index ≠ none then content
    else content.write edit
  | _ => content.write edit

end Content

def contentOf (nodeDef : NodeDef) : Content where
  regular index :=
    match nodeDef.input[index]? with
    | some ⟨node, .port port⟩ => some ⟨node, port⟩
    | _ => none
  controls name := decide ((⟨name, .controlSlot⟩ : TensorId) ∈ nodeDef.input)
  attrs name := nodeDef.attr.lookup name

section Sorted

variable {β : Type}

theorem lookup_cons_ite (entry : Nat × β) (rest : List (Nat × β)) (key : Nat) :
    (entry :: rest).lookup key = if key = entry.1 then some entry.2 else rest.lookup key := by
  rw [List.lookup_cons]
  by_cases isKey : key = entry.1
  · rw [if_pos isKey, beq_iff_eq.2 isKey]
  · rw [if_neg isKey, beq_eq_false_iff_ne.2 isKey]

theorem lookup_insertSorted (key : Nat) (value : β) (entries : List (Nat × β)) (other : Nat) :
    (insertSorted key value entries).lookup other = if other = key then some value else entries.lookup other := by
  induction entries with
  | nil => exact lookup_cons_ite (key, value) [] other
  | cons entry rest ih =>
    unfold insertSorted
    split
    · exact lookup_cons_ite (key, value) (entry :: rest) other
    next notBefore =>
      grind

theorem mem_insertSorted {key : Nat} {value : β} {entries : List (Nat × β)} {entry : Nat × β}
    (mem : entry ∈ insertSorted key value entries) : entry = (key, value) ∨ entry ∈ entries := by
  induction entries with
  | nil => exact Or.inl (List.mem_singleton.1 mem)
  | cons head rest ih =>
    unfold insertSorted at mem
    split at mem
    · exact (List.mem_cons.1 mem)
    · grind

theorem insertSorted_ascends {key : Nat} {value : β} {entries : List (Nat × β)}
    (ascends : entries.Pairwise fun first second => first.1 < second.1) :
    (insertSorted key value entries).Pairwise fun first second => first.1 < second.1 := by
  induction entries with
  | nil => exact List.pairwise_singleton _ _
  | cons head rest ih =>
    obtain ⟨headBelow, restAscends⟩ := List.pairwise_cons.1 ascends
    unfold insertSorted
    split
    next before =>
      refine List.pairwise_cons.2 ⟨?_, ascends⟩
      intro entry mem
      rcases List.mem_cons.1 mem with isHead | later
      · rw [isHead]
        exact before
      · exact Nat.lt_trans before (headBelow entry later)
    next notBefore =>
      split
      next isKey =>
        rw [List.pairwise_cons]
        exact ⟨fun entry later => isKey ▸ headBelow entry later, restAscends⟩
      next notKey =>
        refine List.pairwise_cons.2 ⟨?_, ih restAscends⟩
        intro entry mem
        rcases mem_insertSorted mem with isNew | later
        · rw [isNew]
          exact Nat.lt_of_le_of_ne (Nat.le_of_not_lt notBefore) (Ne.symm notKey)
        · exact headBelow entry later

theorem lookup_filter_ne (entries : List (Nat × β)) (key other : Nat) :
    (entries.filter fun entry => entry.1 ≠ key).lookup other = if other = key then none else entries.lookup other := by
  induction entries with
  | nil => rw [List.filter_nil, List.lookup_nil, ite_self]
  | cons head rest ih =>
    grind

theorem lookup_eq_some_of_ascends {entries : List (Nat × β)}
    (ascends : entries.Pairwise fun first second => first.1 < second.1) {entry : Nat × β}
    (mem : entry ∈ entries) : entries.lookup entry.1 = some entry.2 := by
  induction entries with
  | nil => cases mem
  | cons head rest ih =>
    obtain ⟨headBelow, restAscends⟩ := List.pairwise_cons.1 ascends
    grind

end Sorted

section Vectors

variable {α : Type} [DecidableEq α]

theorem getD_addOrUpdateAtIndex (vector : List α) (index : Nat) (value defaultValue : α) (other : Nat) :
    (addOrUpdateAtIndex vector index value defaultValue).1.getD other defaultValue =
      if other = index then value else vector.getD other defaultValue := by
  unfold addOrUpdateAtIndex
  split
  next beyond =>
    grind
  next old found =>
    grind

theorem length_addOrUpdateAtIndex (vector : List α) (index : Nat) (value defaultValue : α) :
    (addOrUpdateAtIndex vector index value defaultValue).1.length = max vector.length (index + 1) := by
  unfold addOrUpdateAtIndex
  grind

/-- The flag says whether one more element differs from the default. -/
theorem countP_addOrUpdateAtIndex {vector : List α} {value defaultValue : α} (other : value ≠ defaultValue) :
    (addOrUpdateAtIndex vector index value defaultValue).1.countP (fun element => element ≠ defaultValue) =
      if (addOrUpdateAtIndex vector index value defaultValue).2 = true then
        vector.countP (fun element => element ≠ defaultValue) + 1
      else vector.countP (fun element => element ≠ defaultValue) := by
  unfold addOrUpdateAtIndex
  split
  next beyond => simp [List.countP_append, List.countP_replicate, other]
  next old found =>
    grind

theorem countP_set_default {vector : List α} {old defaultValue : α}
    (found : vector[index]? = some old) (other : old ≠ defaultValue) :
    (vector.set index defaultValue).countP (fun element => element ≠ defaultValue) =
      vector.countP (fun element => element ≠ defaultValue) - 1 := by
  obtain ⟨inside, isOld⟩ := List.getElem?_eq_some_iff.1 found
  rw [List.countP_set inside, isOld]
  simp [other]

omit [DecidableEq α] in
theorem getD_set_default (vector : List α) (index : Nat) (defaultValue : α) (other : Nat) :
    (vector.set index defaultValue).getD other defaultValue =
      if other = index then defaultValue else vector.getD other defaultValue := by
  grind

theorem getD_trimEnd (vector : List α) (defaultValue : α) (index : Nat) :
    (trimEnd vector defaultValue).getD index defaultValue = vector.getD index defaultValue := by
  unfold trimEnd
  induction vector using List.reverseRecOn with
  | nil => rfl
  | append_singleton front last ih =>
    rw [List.rdropWhile_concat]
    split
    next isDefault =>
      grind
    next => rfl

theorem countP_trimEnd (vector : List α) (defaultValue : α) :
    (trimEnd vector defaultValue).countP (fun element => element ≠ defaultValue) =
      vector.countP (fun element => element ≠ defaultValue) := by
  unfold trimEnd
  induction vector using List.reverseRecOn with
  | nil => rfl
  | append_singleton front last ih =>
    rw [List.rdropWhile_concat]
    split
    next isDefault =>
      have lastIs : last = defaultValue := of_decide_eq_true isDefault
      rw [ih, List.countP_append, lastIs]
      simp
    next => rfl

end Vectors

/-! ## Recorded changes -/

/-- What the recorded changes read from the node. -/
structure NodeFacts where
  count : Nat
  controlIndex : String → Option Nat
  original : Content

/-- Control fanins have their own positions, and regular ones end at the count. -/
structure NodeFacts.IsSound (facts : NodeFacts) : Prop where
  regular : ∀ index, facts.count ≤ index → facts.original.regular index = none
  controls : ∀ name, facts.original.controls name = (facts.controlIndex name).isSome
  distinct : ∀ name other index, facts.controlIndex name = some index →
    facts.controlIndex other = some index → name = other

namespace NodeViewDiff

/-- The content that the changes stand for. Removal marks count from the last fanin. -/
def content (diff : NodeViewDiff) (facts : NodeFacts) : Content where
  regular index :=
    if index < facts.count then
      if diff.regularInputsToRemove.getD (facts.count - index - 1) false = true then none
      else (diff.regularInputsToUpdate.lookup index).or (facts.original.regular index)
    else diff.regularInputsToAdd.getD (index - facts.count) none
  controls name :=
    match facts.controlIndex name with
    | none => decide (name ∈ diff.controllingInputsToAdd)
    | some index => decide (index ∉ diff.controllingInputsToRemove)
  attrs name :=
    match diff.attrsToAdd.lookup name with
    | some value => some value
    | none => if name ∈ diff.attrsToRemove then none else facts.original.attrs name

/-- What the calls keep of the changes. -/
structure Sound (diff : NodeViewDiff) (facts : NodeFacts) : Prop where
  removeLength : diff.regularInputsToRemove.length ≤ facts.count
  removeCount : diff.numRegularInputsToRemove = diff.regularInputsToRemove.countP fun element => element ≠ false
  addCount : diff.numRegularInputsToAdd = diff.regularInputsToAdd.countP fun element => element ≠ none
  updateAscends : diff.regularInputsToUpdate.Pairwise fun first second => first.1 < second.1
  updateInside : ∀ index, diff.regularInputsToUpdate.lookup index ≠ none →
    index < facts.count ∧ diff.regularInputsToRemove.getD (facts.count - index - 1) false = false
  controlAdded : diff.controllingInputsToAdd.Nodup ∧
    ∀ name ∈ diff.controllingInputsToAdd, facts.controlIndex name = none
  controlRemoved : diff.controllingInputsToRemove.Pairwise (· < ·) ∧
    ∀ index ∈ diff.controllingInputsToRemove, ∃ name, facts.controlIndex name = some index

theorem sound_empty (nodeIndex : Nat) (facts : NodeFacts) : Sound { nodeIndex } facts where
  removeLength := Nat.zero_le _
  removeCount := rfl
  addCount := rfl
  updateAscends := List.Pairwise.nil
  updateInside _ found := absurd rfl found
  controlAdded := ⟨List.nodup_nil, nofun⟩
  controlRemoved := ⟨List.Pairwise.nil, nofun⟩

theorem content_empty {facts : NodeFacts} (isFacts : facts.IsSound) (nodeIndex : Nat) :
    content { nodeIndex } facts = facts.original := by
  apply Content.ext
  · funext index
    show (if index < facts.count then _ else _) = _
    split
    · rfl
    next beyond => exact (isFacts.regular index (Nat.le_of_not_lt beyond)).symm
  · funext name
    have isControl := isFacts.controls name
    show (match facts.controlIndex name with | none => _ | some index => _) = _
    grind
  · rfl

/-- The changes without the mark that removes a fanin. -/
def unmarkAt (diff : NodeViewDiff) (place : Nat) : NodeViewDiff :=
  if diff.regularInputsToRemove[place]? = some true then
    { diff with
      regularInputsToRemove := diff.regularInputsToRemove.set place false
      numRegularInputsToRemove := diff.numRegularInputsToRemove - 1 }
  else diff

section Unmark

variable {diff : NodeViewDiff} {facts : NodeFacts} {place : Nat}

theorem getD_unmarkAt (other : Nat) : (diff.unmarkAt place).regularInputsToRemove.getD other false =
    if other = place then false else diff.regularInputsToRemove.getD other false := by
  unfold unmarkAt
  split
  · exact getD_set_default _ _ _ _
  next unmarked =>
    grind

theorem Sound.unmarkAt (sound : diff.Sound facts) (place : Nat) : (diff.unmarkAt place).Sound facts := by
  have getD := @getD_unmarkAt diff place
  unfold NodeViewDiff.unmarkAt at getD ⊢
  split
  next marked =>
    rw [if_pos marked] at getD
    refine ⟨?_, ?_, sound.addCount, sound.updateAscends, ?_, sound.controlAdded, sound.controlRemoved⟩
    · rw [List.length_set]
      exact sound.removeLength
    · rw [countP_set_default marked (by decide), ← sound.removeCount]
    · intro index found
      obtain ⟨inside, unmarked⟩ := sound.updateInside index found
      refine ⟨inside, ?_⟩
      rw [getD]
      split
      · rfl
      · exact unmarked
  next => exact sound

end Unmark

theorem content_eq_setRegular {diff diff' : NodeViewDiff} {facts : NodeFacts} {index : Nat} {fanin : Option FaninId}
    (regular : ∀ place, (diff'.content facts).regular place =
      if place = index then fanin else (diff.content facts).regular place)
    (controls : diff'.controllingInputsToAdd = diff.controllingInputsToAdd ∧
      diff'.controllingInputsToRemove = diff.controllingInputsToRemove)
    (attrs : diff'.attrsToAdd = diff.attrsToAdd ∧ diff'.attrsToRemove = diff.attrsToRemove) :
    diff'.content facts = (diff.content facts).setRegular index fanin := by
  apply Content.ext
  · funext place
    rw [regular]
    exact (Function.update_apply _ _ _ _).symm
  · unfold content Content.setRegular
    dsimp only
    rw [controls.1, controls.2]
  · unfold content Content.setRegular
    dsimp only
    rw [attrs.1, attrs.2]

theorem regular_of_lt (diff : NodeViewDiff) {facts : NodeFacts} (inside : index < facts.count) :
    (diff.content facts).regular index =
      if diff.regularInputsToRemove.getD (facts.count - index - 1) false = true then none
      else (diff.regularInputsToUpdate.lookup index).or (facts.original.regular index) := if_pos inside

theorem regular_of_ge (diff : NodeViewDiff) {facts : NodeFacts} (beyond : ¬ index < facts.count) :
    (diff.content facts).regular index = diff.regularInputsToAdd.getD (index - facts.count) none := if_neg beyond

section Calls

variable {diff : NodeViewDiff} {facts : NodeFacts} (sound : diff.Sound facts)

/-- The regular fanins when the fanin at one position is not marked any more. -/
theorem regular_unmarkAt (inside : index < facts.count) (place : Nat) :
    ((diff.unmarkAt (facts.count - index - 1)).content facts).regular place =
      if place = index then (diff.regularInputsToUpdate.lookup index).or (facts.original.regular index)
      else (diff.content facts).regular place := by
  have updates : (diff.unmarkAt (facts.count - index - 1)).regularInputsToUpdate = diff.regularInputsToUpdate := by
    unfold unmarkAt
    split <;> rfl
  have adds : (diff.unmarkAt (facts.count - index - 1)).regularInputsToAdd = diff.regularInputsToAdd := by
    unfold unmarkAt
    split <;> rfl
  by_cases isIndex : place = index
  · rw [if_pos isIndex, isIndex, regular_of_lt _ inside, getD_unmarkAt, if_pos rfl, if_neg Bool.false_ne_true, updates]
  · rw [if_neg isIndex]
    by_cases isInside : place < facts.count
    · have notPlace : facts.count - place - 1 ≠ facts.count - index - 1 := by omega
      rw [regular_of_lt _ isInside, regular_of_lt _ isInside, getD_unmarkAt, if_neg notPlace, updates]
    · rw [regular_of_ge _ isInside, regular_of_ge _ isInside, adds]

theorem unmarkAt_attrs (place : Nat) : (diff.unmarkAt place).attrsToAdd = diff.attrsToAdd ∧
    (diff.unmarkAt place).attrsToRemove = diff.attrsToRemove := by
  unfold unmarkAt
  split <;> exact ⟨rfl, rfl⟩

theorem unmarkAt_controls (place : Nat) : (diff.unmarkAt place).controllingInputsToAdd = diff.controllingInputsToAdd ∧
      (diff.unmarkAt place).controllingInputsToRemove = diff.controllingInputsToRemove := by
  unfold unmarkAt
  split <;> exact ⟨rfl, rfl⟩

theorem content_unmarkAt (inside : index < facts.count) :
    (diff.unmarkAt (facts.count - index - 1)).content facts = (diff.content facts).setRegular index
      ((diff.regularInputsToUpdate.lookup index).or (facts.original.regular index)) :=
  content_eq_setRegular (regular_unmarkAt inside) (unmarkAt_controls _) (unmarkAt_attrs _)

include sound

/-- The fanin of the node comes back, unless it was updated to another one. -/
theorem unmarkAt_records (inside : index < facts.count) {fanin : FaninId}
    (isOriginal : facts.original.regular index = some fanin) : (diff.unmarkAt (facts.count - index - 1)).content facts =
      Content.record facts.original (diff.content facts) (.addOrUpdateRegularFanin (.ofNat index) fanin) := by
  change _ = if facts.original.regular index = some fanin ∧ (diff.content facts).regular index ≠ none
    then diff.content facts else (diff.content facts).setRegular index (some fanin)
  have here := regular_of_lt diff inside
  rw [content_unmarkAt inside]
  by_cases isMarked : diff.regularInputsToRemove.getD (facts.count - index - 1) false = true
  · rw [if_pos isMarked] at here
    have notUpdated : diff.regularInputsToUpdate.lookup index = none := by
      by_contra updated
      have unmarked := (sound.updateInside index updated).2
      rw [isMarked] at unmarked
      cases unmarked
    rw [if_neg fun both => both.2 here, notUpdated, Option.none_or, isOriginal]
  · rw [if_neg isMarked] at here
    have isSome : (diff.content facts).regular index ≠ none := by
      rw [here, isOriginal]
      cases diff.regularInputsToUpdate.lookup index <;> exact Option.some_ne_none _
    rw [if_pos ⟨isOriginal, isSome⟩, ← here]
    exact Content.ext (Function.update_eq_self _ _) rfl rfl

theorem Sound.update (inside : index < facts.count)
    (notMarked : diff.regularInputsToRemove.getD (facts.count - index - 1) false = false) (fanin : FaninId) :
    let updated := { diff with regularInputsToUpdate := insertSorted index fanin diff.regularInputsToUpdate }
    Sound updated facts ∧ updated.content facts = (diff.content facts).setRegular index (some fanin) := by
  intro updated
  constructor
  · refine ⟨sound.removeLength, sound.removeCount, sound.addCount, insertSorted_ascends sound.updateAscends, ?_,
      sound.controlAdded, sound.controlRemoved⟩
    intro place found
    change (insertSorted index fanin diff.regularInputsToUpdate).lookup place ≠ none at found
    rw [lookup_insertSorted] at found
    by_cases isIndex : place = index
    · rw [isIndex]
      exact ⟨inside, notMarked⟩
    · rw [if_neg isIndex] at found
      exact sound.updateInside place found
  · refine @content_eq_setRegular diff updated facts index (some fanin) ?_ ⟨rfl, rfl⟩ ⟨rfl, rfl⟩
    intro place
    by_cases isInside : place < facts.count
    · rw [regular_of_lt _ isInside, regular_of_lt _ isInside]
      change (if _ then none else ((insertSorted index fanin diff.regularInputsToUpdate).lookup place).or _) = _
      rw [lookup_insertSorted]
      by_cases isIndex : place = index
      · grind
      · rw [if_neg isIndex, if_neg isIndex]
    · rw [regular_of_ge _ isInside, if_neg (by omega), regular_of_ge _ isInside]

theorem Sound.append (beyond : ¬ index < facts.count) (fanin : FaninId) :
    let added := addOrUpdateAtIndex diff.regularInputsToAdd (index - facts.count) (some fanin) none
    let appended :=
      { diff with
        regularInputsToAdd := added.1
        numRegularInputsToAdd := if added.2 then diff.numRegularInputsToAdd + 1 else diff.numRegularInputsToAdd }
    Sound appended facts ∧ appended.content facts = (diff.content facts).setRegular index (some fanin) := by
  intro added appended
  constructor
  · refine ⟨sound.removeLength, sound.removeCount, ?_, sound.updateAscends, sound.updateInside,
      sound.controlAdded, sound.controlRemoved⟩
    change (if added.2 then _ else _) = added.1.countP _
    rw [countP_addOrUpdateAtIndex (Option.some_ne_none fanin), ← sound.addCount]
  · refine @content_eq_setRegular diff appended facts index (some fanin) ?_ ⟨rfl, rfl⟩ ⟨rfl, rfl⟩
    intro place
    by_cases isInside : place < facts.count
    · have notIndex : place ≠ index := by omega
      rw [regular_of_lt _ isInside, regular_of_lt _ isInside, if_neg notIndex]
    · rw [regular_of_ge _ isInside, regular_of_ge _ isInside]
      change added.1.getD _ _ = _
      rw [getD_addOrUpdateAtIndex]
      by_cases isIndex : place = index
      · rw [if_pos isIndex, if_pos (by rw [isIndex])]
      · rw [if_neg isIndex, if_neg (by omega)]

theorem Sound.addOrUpdateRegularFanin_records {existing : Option FaninId}
    (isExisting : index < facts.count → existing = facts.original.regular index)
    (isFacts : facts.IsSound) (fanin : FaninId) :
    (diff.addOrUpdateRegularFanin facts.count existing (.ofNat index) fanin).1.Sound facts ∧
      (diff.addOrUpdateRegularFanin facts.count existing (.ofNat index) fanin).1.content facts =
        Content.record facts.original (diff.content facts) (.addOrUpdateRegularFanin (.ofNat index) fanin) := by
  unfold addOrUpdateRegularFanin
  dsimp only
  by_cases inside : index < facts.count
  · rw [if_pos inside, isExisting inside]
    have unmarked := sound.unmarkAt (facts.count - index - 1)
    by_cases isOriginal : facts.original.regular index = some fanin
    · rw [if_pos isOriginal]
      exact ⟨unmarked, unmarkAt_records sound inside isOriginal⟩
    · rw [if_neg isOriginal]
      have updated := unmarked.update inside (by rw [getD_unmarkAt, if_pos rfl]) fanin
      refine ⟨updated.1, updated.2.trans ?_⟩
      change _ = if _ ∧ _ then _ else (diff.content facts).setRegular index (some fanin)
      rw [if_neg fun both => isOriginal both.1, content_unmarkAt inside]
      exact Content.ext (Function.update_idem _ _ _) rfl rfl
  · rw [if_neg inside]
    have appended := sound.append inside fanin
    refine ⟨appended.1, appended.2.trans ?_⟩
    change _ = if facts.original.regular index = _ ∧ _ then _ else (diff.content facts).setRegular index (some fanin)
    rw [isFacts.regular index (Nat.le_of_not_lt inside), if_neg fun both => nomatch both.1]

theorem Sound.mark (inside : index < facts.count) :
    let marked := addOrUpdateAtIndex diff.regularInputsToRemove (facts.count - index - 1) true false
    let removed :=
      { diff with
        regularInputsToUpdate := diff.regularInputsToUpdate.filter fun entry => entry.1 ≠ index
        regularInputsToRemove := marked.1
        numRegularInputsToRemove :=
          if marked.2 then diff.numRegularInputsToRemove + 1 else diff.numRegularInputsToRemove }
    Sound removed facts ∧ removed.content facts = (diff.content facts).setRegular index none := by
  intro marked removed
  have marks : ∀ place, marked.1.getD place false =
      if place = facts.count - index - 1 then true else diff.regularInputsToRemove.getD place false :=
    getD_addOrUpdateAtIndex _ _ _ _
  constructor
  · refine ⟨?_, ?_, sound.addCount, sound.updateAscends.filter _, ?_, sound.controlAdded, sound.controlRemoved⟩
    · change marked.1.length ≤ facts.count
      rw [length_addOrUpdateAtIndex]
      have before := sound.removeLength
      omega
    · change (if marked.2 then _ else _) = marked.1.countP _
      rw [countP_addOrUpdateAtIndex (by decide), ← sound.removeCount]
    · intro place found
      change (diff.regularInputsToUpdate.filter _).lookup place ≠ none at found
      rw [lookup_filter_ne] at found
      by_cases isIndex : place = index
      · rw [if_pos isIndex] at found
        exact absurd rfl found
      · rw [if_neg isIndex] at found
        obtain ⟨isInside, unmarked⟩ := sound.updateInside place found
        refine ⟨isInside, ?_⟩
        change marked.1.getD _ false = false
        rw [marks, if_neg (by omega)]
        exact unmarked
  · refine @content_eq_setRegular diff removed facts index none ?_ ⟨rfl, rfl⟩ ⟨rfl, rfl⟩
    intro place
    by_cases isInside : place < facts.count
    · rw [regular_of_lt _ isInside, regular_of_lt _ isInside]
      change (if marked.1.getD _ false = true then none
        else ((diff.regularInputsToUpdate.filter _).lookup place).or _) = _
      rw [marks, lookup_filter_ne]
      grind
    · rw [regular_of_ge _ isInside, if_neg (by omega), regular_of_ge _ isInside]

theorem Sound.removeRegularFanin_records (index : Nat) :
    (diff.removeRegularFanin facts.count (.ofNat index)).1.Sound facts ∧
      (diff.removeRegularFanin facts.count (.ofNat index)).1.content facts =
        (diff.content facts).setRegular index none := by
  unfold removeRegularFanin
  dsimp only
  by_cases inside : index < facts.count
  · rw [if_pos inside]
    exact sound.mark inside
  · rw [if_neg inside]
    have here := regular_of_ge diff inside
    rw [List.getD_eq_getElem?_getD] at here
    split
    next fanin found =>
      constructor
      · refine ⟨sound.removeLength, sound.removeCount, ?_, sound.updateAscends, sound.updateInside,
          sound.controlAdded, sound.controlRemoved⟩
        change diff.numRegularInputsToAdd - 1 = _
        rw [countP_set_default found (Option.some_ne_none fanin), ← sound.addCount]
      · refine content_eq_setRegular ?_ ⟨rfl, rfl⟩ ⟨rfl, rfl⟩
        intro place
        by_cases isInside : place < facts.count
        · have notIndex : place ≠ index := by omega
          rw [regular_of_lt _ isInside, regular_of_lt _ isInside, if_neg notIndex]
        · rw [regular_of_ge _ isInside, regular_of_ge _ isInside, getD_set_default]
          by_cases isIndex : place = index
          · rw [if_pos isIndex, if_pos (by rw [isIndex])]
          · rw [if_neg isIndex, if_neg (by omega)]
    next notThere =>
      refine ⟨sound, ?_⟩
      have isNone : (diff.content facts).regular index = none := by
        rw [here]
        cases found : diff.regularInputsToAdd[index - facts.count]? with
        | none => rfl
        | some added =>
          cases added with
          | none => rfl
          | some fanin => exact absurd found (notThere fanin)
      have unchanged : Function.update (diff.content facts).regular index none = (diff.content facts).regular := by
        rw [← isNone]
        exact Function.update_eq_self _ _
      exact Content.ext unchanged.symm rfl rfl

end Calls

section OtherCalls

variable {diff diff' : NodeViewDiff} {facts : NodeFacts}

/-- Changes that agree on the regular fanins. -/
structure SameRegular (diff diff' : NodeViewDiff) : Prop where
  adds : diff'.regularInputsToAdd = diff.regularInputsToAdd
  updates : diff'.regularInputsToUpdate = diff.regularInputsToUpdate
  removes : diff'.regularInputsToRemove = diff.regularInputsToRemove
  addCount : diff'.numRegularInputsToAdd = diff.numRegularInputsToAdd
  removeCount : diff'.numRegularInputsToRemove = diff.numRegularInputsToRemove

/-- Changes that agree on the controlling fanins. -/
def SameControls (diff diff' : NodeViewDiff) : Prop :=
  diff'.controllingInputsToAdd = diff.controllingInputsToAdd ∧
    diff'.controllingInputsToRemove = diff.controllingInputsToRemove

/-- Changes that agree on the attributes. -/
def SameAttrs (diff diff' : NodeViewDiff) : Prop :=
  diff'.attrsToAdd = diff.attrsToAdd ∧ diff'.attrsToRemove = diff.attrsToRemove

theorem Sound.congr (sound : diff.Sound facts) (regular : SameRegular diff diff')
    (controlAdded : diff'.controllingInputsToAdd.Nodup ∧
      ∀ name ∈ diff'.controllingInputsToAdd, facts.controlIndex name = none)
    (controlRemoved : diff'.controllingInputsToRemove.Pairwise (· < ·) ∧
      ∀ index ∈ diff'.controllingInputsToRemove, ∃ name, facts.controlIndex name = some index) :
    diff'.Sound facts where
  removeLength := by
    rw [regular.removes]
    exact sound.removeLength
  removeCount := by
    rw [regular.removes, regular.removeCount]
    exact sound.removeCount
  addCount := by
    rw [regular.adds, regular.addCount]
    exact sound.addCount
  updateAscends := by
    rw [regular.updates]
    exact sound.updateAscends
  updateInside := by
    rw [regular.updates, regular.removes]
    exact sound.updateInside
  controlAdded := controlAdded
  controlRemoved := controlRemoved

theorem Sound.sameControls (sound : diff.Sound facts) (regular : SameRegular diff diff')
    (controls : SameControls diff diff') : diff'.Sound facts := by
  refine sound.congr regular ?_ ?_
  · rw [controls.1]
    exact sound.controlAdded
  · rw [controls.2]
    exact sound.controlRemoved

theorem SameRegular.content (regular : SameRegular diff diff') :
    (diff'.content facts).regular = (diff.content facts).regular := by
  unfold NodeViewDiff.content
  dsimp only
  rw [regular.adds, regular.updates, regular.removes]

theorem SameControls.content (controls : SameControls diff diff') :
    (diff'.content facts).controls = (diff.content facts).controls := by
  unfold NodeViewDiff.content
  dsimp only
  rw [controls.1, controls.2]

theorem SameAttrs.content (attrs : SameAttrs diff diff') :
    (diff'.content facts).attrs = (diff.content facts).attrs := by
  unfold NodeViewDiff.content
  dsimp only
  rw [attrs.1, attrs.2]

theorem content_eq_setControl (regular : SameRegular diff diff') (attrs : SameAttrs diff diff') {name : String}
    {present : Bool} (controls : ∀ other, (diff'.content facts).controls other =
      if other = name then present else (diff.content facts).controls other) :
    diff'.content facts =
      { diff.content facts with controls := Function.update (diff.content facts).controls name present } := by
  refine Content.ext regular.content ?_ attrs.content
  funext other
  rw [controls]
  exact (Function.update_apply _ _ _ _).symm

theorem content_eq_setAttr (regular : SameRegular diff diff') (controls : SameControls diff diff') {name : String}
    {value : Option AttrValue} (attrs : ∀ other, (diff'.content facts).attrs other =
      if other = name then value else (diff.content facts).attrs other) :
    diff'.content facts =
      { diff.content facts with attrs := Function.update (diff.content facts).attrs name value } := by
  refine Content.ext regular.content controls.content ?_
  funext other
  rw [attrs]
  exact (Function.update_apply _ _ _ _).symm

section

variable (sound : diff.Sound facts) (isFacts : facts.IsSound) {name : String} (regular : SameRegular diff diff')
  (attrs : SameAttrs diff diff') (edit : NodeEdit) (present : Bool) (isWrite : (diff.content facts).write edit =
    { diff.content facts with controls := Function.update (diff.content facts).controls name present })

include sound isFacts regular attrs isWrite

omit isFacts in
theorem Sound.setControl_absent (isIndex : facts.controlIndex name = none)
    (nodup : diff'.controllingInputsToAdd.Nodup)
    (isAdd : ∀ other, other ∈ diff'.controllingInputsToAdd ↔
      if other = name then present = true else other ∈ diff.controllingInputsToAdd)
    (isRemove : diff'.controllingInputsToRemove = diff.controllingInputsToRemove) :
    diff'.Sound facts ∧ diff'.content facts = (diff.content facts).write edit := by
  rw [isWrite]
  constructor
  · refine sound.congr regular ⟨nodup, ?_⟩ (isRemove.symm ▸ sound.controlRemoved)
    intro other mem
    by_cases isName : other = name
    · exact isName ▸ isIndex
    · exact sound.controlAdded.2 other (by simpa [isName] using (isAdd other).1 mem)
  · refine content_eq_setControl regular attrs ?_
    intro other
    unfold content
    dsimp only
    by_cases isName : other = name
    · simp [isName, isIndex, isAdd]
    · simp [isName, isRemove, isAdd]

theorem Sound.setControl_present (isIndex : facts.controlIndex name = some index)
    (ascends : diff'.controllingInputsToRemove.Pairwise (· < ·))
    (isRemove : ∀ other, other ∈ diff'.controllingInputsToRemove ↔
      if other = index then present = false else other ∈ diff.controllingInputsToRemove)
    (isAdd : diff'.controllingInputsToAdd = diff.controllingInputsToAdd) :
    diff'.Sound facts ∧ diff'.content facts = (diff.content facts).write edit := by
  rw [isWrite]
  constructor
  · refine sound.congr regular (isAdd.symm ▸ sound.controlAdded) ⟨ascends, ?_⟩
    intro other mem
    by_cases same : other = index
    · exact ⟨name, same ▸ isIndex⟩
    · exact sound.controlRemoved.2 other (by simpa [same] using (isRemove other).1 mem)
  · refine content_eq_setControl regular attrs ?_
    intro other
    unfold content
    dsimp only
    by_cases isName : other = name
    · simp [isName, isIndex, isRemove]
    · rw [if_neg isName, isAdd]
      cases isOther : facts.controlIndex other with
      | none => rfl
      | some otherIndex =>
        have notIndex : otherIndex ≠ index := by
          intro same
          exact isName (isFacts.distinct other name index (same ▸ isOther) isIndex)
        simp [isRemove, notIndex]

end

theorem Sound.addOrUpdateNodeAttr_records (sound : diff.Sound facts) {name : String} {value : AttrValue}
    (regular : SameRegular diff diff') (controls : SameControls diff diff')
    (isAdd : diff'.attrsToAdd = diff.attrsToAdd.insert name value)
    (isRemove : ∀ other ≠ name, other ∈ diff'.attrsToRemove ↔ other ∈ diff.attrsToRemove) :
    diff'.Sound facts ∧ diff'.content facts = (diff.content facts).write (.addOrUpdateNodeAttr name value) := by
  refine ⟨sound.sameControls regular controls, content_eq_setAttr regular controls ?_⟩
  intro other
  unfold content
  dsimp only
  rw [isAdd]
  by_cases isName : other = name
  · rw [if_pos isName, isName, AList.lookup_insert]
  · rw [if_neg isName, AList.lookup_insert_ne isName]
    split
    · rfl
    · simp only [isRemove other isName]

theorem Sound.removeNodeAttr_records (sound : diff.Sound facts) {name : String}
    (regular : SameRegular diff diff') (controls : SameControls diff diff')
    (isAdd : diff'.attrsToAdd = diff.attrsToAdd.erase name)
    (isRemove : ∀ other ≠ name, other ∈ diff'.attrsToRemove ↔ other ∈ diff.attrsToRemove)
    (gone : name ∈ diff'.attrsToRemove ∨ facts.original.attrs name = none) :
    diff'.Sound facts ∧ diff'.content facts = (diff.content facts).write (.removeNodeAttr name) := by
  refine ⟨sound.sameControls regular controls, content_eq_setAttr regular controls ?_⟩
  intro other
  unfold content
  dsimp only
  rw [isAdd]
  by_cases isName : other = name
  · rw [if_pos isName, isName, AList.lookup_erase]
    rcases gone with removed | never
    · exact if_pos removed
    · dsimp only
      rw [never, ite_self]
  · rw [if_neg isName, AList.lookup_erase_ne isName]
    split
    · rfl
    · simp only [isRemove other isName]

end OtherCalls

end NodeViewDiff

section Mutate

variable {view : MutableGraphView} {node : MutableNodeView} {nodeDef : NodeDef}

def factsOf (node : MutableNodeView) (nodeDef : NodeDef) : NodeFacts where
  count := node.regularFanins.length
  controlIndex := node.controllingFaninsIndex.lookup
  original := contentOf nodeDef

def NodeEdit.keepsName : NodeEdit → Bool
  | .updateName _ => false
  | _ => true

theorem NodeEdit.mutate_records {edit : NodeEdit} {diff : NodeViewDiff} (keepsName : edit.keepsName = true)
    (isFacts : (factsOf node nodeDef).IsSound)
    (isFanin : ∀ index < node.regularFanins.length, view.faninIdAt node index = (contentOf nodeDef).regular index)
    (sound : diff.Sound (factsOf node nodeDef)) : (edit.mutate view node nodeDef diff).1.Sound (factsOf node nodeDef) ∧
      (edit.mutate view node nodeDef diff).1.content (factsOf node nodeDef) =
        Content.record (contentOf nodeDef) (diff.content (factsOf node nodeDef)) edit := by
  cases edit with
  | updateName name => cases keepsName
  | updateOp op => exact ⟨sound.sameControls ⟨rfl, rfl, rfl, rfl, rfl⟩ ⟨rfl, rfl⟩, rfl⟩
  | updateDevice device => exact ⟨sound.sameControls ⟨rfl, rfl, rfl, rfl, rfl⟩ ⟨rfl, rfl⟩, rfl⟩
  | addOrUpdateRegularFanin index fanin =>
    cases index with
    | negSucc index => exact ⟨sound, rfl⟩
    | ofNat index => exact sound.addOrUpdateRegularFanin_records (isFanin index) isFacts fanin
  | removeRegularFanin index =>
    cases index with
    | negSucc index => exact ⟨sound, rfl⟩
    | ofNat index => exact sound.removeRegularFanin_records index
  | addControllingFanin name =>
    unfold NodeEdit.mutate
    dsimp only
    split
    next isIndex =>
      refine sound.setControl_absent ?_ ?_ (.addControllingFanin name) true rfl isIndex ?_ ?_ ?_
      · exact ⟨rfl, rfl, rfl, rfl, rfl⟩
      · exact ⟨rfl, rfl⟩
      · exact sound.controlAdded.1.insert
      · intro other
        by_cases isName : other = name
        · simp [isName]
        · simp [isName]
      · rfl
    next index isIndex =>
      have removedNodup : diff.controllingInputsToRemove.Nodup :=
        sound.controlRemoved.1.imp fun {_ _} less => Nat.ne_of_lt less
      refine sound.setControl_present isFacts ?_ ?_ (.addControllingFanin name) true rfl isIndex ?_ ?_ ?_
      · exact ⟨rfl, rfl, rfl, rfl, rfl⟩
      · exact ⟨rfl, rfl⟩
      · exact sound.controlRemoved.1.sublist List.erase_sublist
      · intro other
        by_cases same : other = index
        · simp [same, removedNodup.mem_erase_iff]
        · simp [same, removedNodup.mem_erase_iff]
      · rfl
  | removeControllingFanin name =>
    unfold NodeEdit.mutate
    dsimp only
    split
    next isIndex =>
      refine sound.setControl_absent ?_ ?_ (.removeControllingFanin name) false rfl isIndex ?_ ?_ ?_
      · exact ⟨rfl, rfl, rfl, rfl, rfl⟩
      · exact ⟨rfl, rfl⟩
      · exact sound.controlAdded.1.erase name
      · intro other
        by_cases isName : other = name
        · simp [isName, sound.controlAdded.1.mem_erase_iff]
        · simp [isName, sound.controlAdded.1.mem_erase_iff]
      · rfl
    next index isIndex =>
      refine sound.setControl_present isFacts ?_ ?_ (.removeControllingFanin name) false rfl isIndex ?_ ?_ ?_
      · exact ⟨rfl, rfl, rfl, rfl, rfl⟩
      · exact ⟨rfl, rfl⟩
      · exact MutableGraphView.emplaceSorted_ascends sound.controlRemoved.1
      · intro other
        by_cases same : other = index
        · simp [same, MutableGraphView.mem_emplaceSorted]
        · simp [same, MutableGraphView.mem_emplaceSorted]
      · rfl
  | addOrUpdateNodeAttr name value =>
    refine sound.addOrUpdateNodeAttr_records ⟨rfl, rfl, rfl, rfl, rfl⟩ ⟨rfl, rfl⟩ rfl ?_
    intro other isOther
    unfold NodeEdit.mutate
    dsimp only
    split
    · rfl
    · rw [List.mem_erase_of_ne isOther]
  | removeNodeAttr name =>
    unfold NodeEdit.mutate
    dsimp only
    split
    next has =>
      refine sound.removeNodeAttr_records ⟨rfl, rfl, rfl, rfl, rfl⟩ ⟨rfl, rfl⟩ rfl ?_
        (Or.inl (List.mem_insert_self))
      intro other isOther
      rw [List.mem_insert_iff, or_iff_right isOther]
    next hasNot =>
      exact sound.removeNodeAttr_records ⟨rfl, rfl, rfl, rfl, rfl⟩ ⟨rfl, rfl⟩ rfl (fun _ _ => Iff.rfl)
        (Or.inr (AList.lookup_eq_none.2 hasNot))

theorem NodeEdit.mutate_idle {edit : NodeEdit} {diff : NodeViewDiff} {facts : NodeFacts}
    (idle : (edit.mutate view node nodeDef diff).2 = false) :
    (edit.mutate view node nodeDef diff).1.content facts = diff.content facts := by
  cases edit with
  | updateName name => cases idle
  | updateOp op => cases idle
  | updateDevice device => cases idle
  | addOrUpdateRegularFanin index fanin =>
    cases index with
    | negSucc index => rfl
    | ofNat index =>
      unfold NodeEdit.mutate NodeViewDiff.addOrUpdateRegularFanin at idle
      dsimp only at idle
      split at idle
      · split at idle <;> cases idle
      · cases idle
  | removeRegularFanin index =>
    cases index with
    | negSucc index => rfl
    | ofNat index =>
      unfold NodeEdit.mutate NodeViewDiff.removeRegularFanin at idle ⊢
      dsimp only at idle ⊢
      split at idle
      · cases idle
      next beyond =>
        rw [if_neg beyond]
        split at idle
        · cases idle
        next => rfl
  | addControllingFanin name =>
    unfold NodeEdit.mutate at idle
    dsimp only at idle
    split at idle <;> cases idle
  | removeControllingFanin name =>
    unfold NodeEdit.mutate at idle
    dsimp only at idle
    split at idle <;> cases idle
  | addOrUpdateNodeAttr name value => cases idle
  | removeNodeAttr name =>
    unfold NodeEdit.mutate at idle ⊢
    dsimp only at idle ⊢
    split at idle
    · cases idle
    next hasNot =>
      rw [if_neg hasNot]
      have notThere : name ∉ diff.attrsToAdd := of_decide_eq_false idle
      have unchanged : diff.attrsToAdd.erase name = diff.attrsToAdd :=
        AList.ext (List.kerase_of_notMem_keys notThere)
      dsimp only
      rw [unchanged]

end Mutate

end Itex.GraphUtils
