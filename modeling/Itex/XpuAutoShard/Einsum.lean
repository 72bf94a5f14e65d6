import Itex.Lib.OrderedSet
import Itex.XpuAutoShard.Reduction

/-!
Contract: how an `Einsum` reads its equation
(`common/hsp_inference/tfg_ops.cpp`,
`EinsumInfer`).

Owns: the labels of the operands and of the result, the dim group of each label, and when a
group has all dims with its label.

An equation is a list of characters, and its map of a string gives each label one position.
-/

namespace Itex.XpuAutoShard.Hsp

open Itex.Lib

variable {item : DimItem} {label symbol : Char} {string : List Char}

/-! ## The equation -/

/-- `symbols_mp`. -/
abbrev SymbolsMap := Char → Option Nat

/-- `equation.find("->")`. -/
def findArrow : List Char → Option Nat
  | [] => none
  | '-' :: '>' :: _ => some 0
  | _ :: rest => (findArrow rest).map (· + 1)

/-- The loop over the dims of one string: a later dim replaces an earlier one. -/
def readSymbols (string : List Char) : SymbolsMap :=
  string.zipIdx.foldl (fun symbolsMp (symbol, dim) => Function.update symbolsMp symbol (some dim)) fun _ => none

/-- The order of `std::set<char>`. -/
def precedes (symbol other : Char) : Bool := symbol.toNat < other.toNat

def insertSymbols (allSymbols string : List Char) : List Char :=
  string.foldl (fun allSymbols symbol => OrderedSet.insert precedes symbol allSymbols) allSymbols

def handleDescBySeparator (description allSymbols : List Char) : List SymbolsMap × List Char :=
  -- The size of the string if there is no separator.
  let separatorPos := description.idxOf ','
  let string := description.take separatorPos
  let allSymbols := insertSymbols allSymbols string
  if separatorPos < description.length then
    let (rest, allSymbols) := handleDescBySeparator (description.drop (separatorPos + 1)) allSymbols
    (readSymbols string :: rest, allSymbols)
  else ([readSymbols string], allSymbols)
termination_by description.length
decreasing_by
  rw [List.length_drop]
  omega

/-- The two parts of the equation. `substr` throws past the end. -/
def splitEquation (equation : List Char) : Except Failure (List Char × List Char) :=
  match findArrow equation with
  | some pos => .ok (equation.take pos, equation.drop (pos + 2))
  | none =>
    -- `npos + 2` is one.
    if equation = [] then .error (.crash "basic_string::substr")
    else .ok (equation, equation.drop 1)

/-- The dims with a symbol among the operands or the results. -/
def symbolItems (isInput : Bool) (symbolsVec : List SymbolsMap) (symbol : Char) : List DimItem :=
  symbolsVec.zipIdx.filterMap fun (symbolsMp, num) => (symbolsMp symbol).map fun dim => ⟨isInput, num, dim⟩

def symbolGroup (operandSymbolsVec resultSymbolsVec : List SymbolsMap) (symbol : Char) : Option DimGroup :=
  let dimItems := symbolItems true operandSymbolsVec symbol ++ symbolItems false resultSymbolsVec symbol
  if dimItems = [] then none else some { items := dimItems }

/-- What `EinsumInfer` reads of an equation. -/
structure EinsumReading where
  operandSymbolsVec : List SymbolsMap
  resultSymbolsVec : List SymbolsMap
  dimGroups : List DimGroup

def readEinsum (equation : List Char) : Except Failure EinsumReading := do
  let (operationDesc, resultDesc) ← splitEquation equation
  let (operandSymbolsVec, allSymbols) := handleDescBySeparator operationDesc []
  let (resultSymbolsVec, allSymbols) := handleDescBySeparator resultDesc allSymbols
  return ⟨operandSymbolsVec, resultSymbolsVec, allSymbols.filterMap (symbolGroup operandSymbolsVec resultSymbolsVec)⟩

def einsumInfer (equation : List Char) (props : OpProps) (heap : Heap) : DoInfer :=
  inferWithDimGroups props (EinsumReading.dimGroups <$> readEinsum equation) heap

/-- The equation of operand strings and a result string. -/
def einsumEquation (operands : List (List Char)) (result : List Char) : List Char :=
  [','].intercalate operands ++ '-' :: '>' :: result

/-- A label is no character of a separator. -/
def IsLabel (symbol : Char) : Prop := symbol ≠ ',' ∧ symbol ≠ '-'

def HasLabel (operands : List (List Char)) (result : List Char) (label : Char) (item : DimItem) : Prop :=
  ∃ string, (if item.isInput then operands else [result])[item.num]? = some string ∧ string[item.dim]? = some label

def OneGroupPerLabel (operands : List (List Char)) (result : List Char) (groups : List DimGroup) : Prop :=
  ∃ labels : List Char, labels.Nodup ∧ (∀ label, label ∈ labels ↔ ∃ item, HasLabel operands result label item) ∧
    List.Forall₂ (fun label group => ∀ item, item ∈ group.items ↔ HasLabel operands result label item) labels groups

/-- Reading ends with an entry for each operand and the groups of the labels. -/
def ReadsEquation (operands : List (List Char)) (result : List Char) : Prop :=
  ∃ reading, readEinsum (einsumEquation operands result) = .ok reading ∧
    reading.operandSymbolsVec.length = operands.length ∧ OneGroupPerLabel operands result reading.dimGroups

/-! ## Reading a string -/

theorem readSymbols_append (string : List Char) (symbol : Char) :
    readSymbols (string ++ [symbol]) = Function.update (readSymbols string) symbol (some string.length) := by
  unfold readSymbols
  rw [List.zipIdx_append, List.foldl_append, Nat.zero_add]
  rfl

theorem getElem?_of_readSymbols {dim : Nat}
    (kept : readSymbols string symbol = some dim) : string[dim]? = some symbol := by
  induction string using List.reverseRecOn with
  | nil => cases kept
  | append_singleton string last ih =>
    rw [readSymbols_append] at kept
    grind

theorem exists_readSymbols (mem : symbol ∈ string) :
    ∃ dim, readSymbols string symbol = some dim := by
  induction string using List.reverseRecOn with
  | nil => cases mem
  | append_singleton string last ih =>
    rw [readSymbols_append]
    by_cases isLast : symbol = last
    · rw [isLast, Function.update_self]
      exact ⟨_, rfl⟩
    · simp_all

/-- Without repeated labels every position is kept. -/
theorem readSymbols_eq_some_iff (nodup : string.Nodup) {dim : Nat} :
    readSymbols string symbol = some dim ↔ string[dim]? = some symbol := by
  constructor
  · exact getElem?_of_readSymbols
  · intro atDim
    obtain ⟨kept, isKept⟩ := exists_readSymbols (List.mem_of_getElem? atDim)
    have atKept := getElem?_of_readSymbols isKept
    have inside := read_lt atDim
    rw [isKept, (List.getElem?_inj inside nodup).1 (atDim.trans atKept.symm)]

theorem linear_precedes : OrderedSet.Linear precedes fun _ => True where
  irrefl symbol _ := decide_eq_false (Nat.lt_irrefl symbol.toNat)
  trans first second third _ _ _ before after := by
    unfold precedes at before after ⊢
    exact decide_eq_true (Nat.lt_trans (of_decide_eq_true before) (of_decide_eq_true after))
  connected symbol other _ _ ne := by
    unfold precedes
    rw [decide_eq_true_iff, decide_eq_true_iff]
    exact Nat.lt_or_gt_of_ne fun same => ne (Char.toNat_inj.1 same)

theorem mem_insertSymbols {allSymbols : List Char} :
    symbol ∈ insertSymbols allSymbols string ↔ symbol ∈ allSymbols ∨ symbol ∈ string := by
  unfold insertSymbols
  induction string generalizing allSymbols with
  | nil => simp
  | cons first rest ih =>
    rw [List.foldl_cons, ih, OrderedSet.mem_insert linear_precedes trivial fun _ _ => trivial, List.mem_cons]
    tauto

theorem sorted_insertSymbols {allSymbols : List Char} (sorted : OrderedSet.Sorted precedes allSymbols)
    (string : List Char) : OrderedSet.Sorted precedes (insertSymbols allSymbols string) := by
  unfold insertSymbols
  induction string generalizing allSymbols with
  | nil => exact sorted
  | cons first rest ih =>
    exact ih (OrderedSet.sorted_insert linear_precedes trivial (fun _ _ => trivial) sorted)

theorem findArrow_append (noDash : '-' ∉ string) (rest : List Char) :
    findArrow (string ++ '-' :: '>' :: rest) = some string.length := by
  induction string with
  | nil => rfl
  | cons first string ih =>
    have isFirst : first ≠ '-' := fun same => noDash (same ▸ List.mem_cons_self)
    have later := ih fun mem => noDash (List.mem_cons_of_mem _ mem)
    rw [List.cons_append, findArrow, later]
    · rfl
    · intro _ same
      exact fun _ => isFirst same

theorem handleDescBySeparator_single (noComma : ',' ∉ string) (allSymbols : List Char) :
    handleDescBySeparator string allSymbols = ([readSymbols string], insertSymbols allSymbols string) := by
  unfold handleDescBySeparator
  dsimp only
  rw [List.idxOf_eq_length noComma, if_neg (Nat.lt_irrefl _), List.take_length]

theorem handleDescBySeparator_cons (noComma : ',' ∉ string) (rest allSymbols : List Char) :
    handleDescBySeparator (string ++ ',' :: rest) allSymbols =
      (readSymbols string :: (handleDescBySeparator rest (insertSymbols allSymbols string)).1,
        (handleDescBySeparator rest (insertSymbols allSymbols string)).2) := by
  have atComma : (string ++ ',' :: rest).idxOf ',' = string.length := by
    rw [List.idxOf_append_of_notMem noComma, List.idxOf_cons_self, Nat.add_zero]
  rw [handleDescBySeparator]
  simp_all

/-- The loop ends with one entry for each string. -/
theorem handleDescBySeparator_intercalate {operands : List (List Char)} (someOperand : operands ≠ [])
    (noComma : ∀ string ∈ operands, ',' ∉ string) (allSymbols : List Char) :
    handleDescBySeparator ([','].intercalate operands) allSymbols =
      (operands.map readSymbols, insertSymbols allSymbols operands.flatten) := by
  induction operands generalizing allSymbols with
  | nil => exact absurd rfl someOperand
  | cons string operands ih =>
    have noCommaFirst := noComma string List.mem_cons_self
    cases operands with
    | nil =>
      rw [List.intercalate_singleton, handleDescBySeparator_single noCommaFirst, List.flatten_singleton]
      rfl
    | cons next operands =>
      have later := ih (by simp) (fun other mem => noComma other (List.mem_cons_of_mem _ mem))
        (insertSymbols allSymbols string)
      rw [List.intercalate_cons_cons, List.append_assoc, List.singleton_append,
        handleDescBySeparator_cons noCommaFirst, later, @List.flatten_cons _ string]
      exact congrArg (Prod.mk _) List.foldl_append.symm

/-! ## The groups of labels -/

theorem mem_symbolItems {isInput : Bool} {strings : List (List Char)} :
    item ∈ symbolItems isInput (strings.map readSymbols) symbol ↔ item.isInput = isInput ∧
      ∃ string, strings[item.num]? = some string ∧ readSymbols string symbol = some item.dim := by
  unfold symbolItems
  rw [List.mem_filterMap]
  constructor
  · rintro ⟨⟨symbolsMp, num⟩, mem, isItem⟩
    obtain ⟨dim, atSymbol, isItem⟩ := Option.map_eq_some_iff.1 isItem
    have atNum := List.mem_zipIdx_iff_getElem?.1 mem
    rw [List.getElem?_map, Option.map_eq_some_iff] at atNum
    obtain ⟨string, atNum, isMap⟩ := atNum
    rw [← isItem]
    exact ⟨rfl, string, atNum, isMap ▸ atSymbol⟩
  · rintro ⟨isSide, string, atNum, atSymbol⟩
    refine ⟨(readSymbols string, item.num), List.mem_zipIdx_iff_getElem?.2 ?_, ?_⟩
    · rw [List.getElem?_map, atNum]
      rfl
    · dsimp only
      rw [atSymbol, ← isSide]
      rfl

section Equation

variable {operands : List (List Char)} {result : List Char}

/-- The items of a label in what is read of an equation. -/
def labelItems (operands : List (List Char)) (result : List Char) (label : Char) : List DimItem :=
  symbolItems true (operands.map readSymbols) label ++ symbolItems false [readSymbols result] label

theorem mem_labelItems : item ∈ labelItems operands result label ↔ ∃ string,
      (if item.isInput then operands else [result])[item.num]? = some string ∧
        readSymbols string label = some item.dim := by
  have isMapped : [readSymbols result] = [result].map readSymbols := rfl
  unfold labelItems
  rw [isMapped, List.mem_append, mem_symbolItems, mem_symbolItems]
  grind

theorem labelItems_ne_nil (occurs : HasLabel operands result label item) :
    labelItems operands result label ≠ [] := by
  obtain ⟨string, atNum, atDim⟩ := occurs
  obtain ⟨dim, kept⟩ := exists_readSymbols (List.mem_of_getElem? atDim)
  have mem : ⟨item.isInput, item.num, dim⟩ ∈ labelItems operands result label :=
    mem_labelItems.2 ⟨string, atNum, kept⟩
  exact List.ne_nil_of_mem mem

theorem labelItems_functional {other : DimItem} (mem : item ∈ labelItems operands result label)
    (otherMember : other ∈ labelItems operands result label) (sameSide : item.isInput = other.isInput)
    (sameNum : item.num = other.num) : item.dim = other.dim := by
  obtain ⟨string, atNum, atLabel⟩ := mem_labelItems.1 mem
  obtain ⟨string', atNum', atLabel'⟩ := mem_labelItems.1 otherMember
  rw [sameSide, sameNum, atNum'] at atNum
  rw [Option.some.inj atNum, atLabel] at atLabel'
  exact Option.some.inj atLabel'

theorem exists_hasLabel_iff :
    (∃ item, HasLabel operands result label item) ↔ label ∈ operands.flatten ∨ label ∈ result := by
  constructor
  · rintro ⟨⟨isInput, num, dim⟩, string, atNum, atDim⟩
    have inString := List.mem_of_getElem? atDim
    cases isInput with
    | true => exact .inl (List.mem_flatten.2 ⟨string, List.mem_of_getElem? atNum, inString⟩)
    | false =>
      have isResult := List.mem_singleton.1 (List.mem_of_getElem? atNum)
      exact .inr (isResult ▸ inString)
  · rintro (inOperand | inResult)
    · obtain ⟨string, mem, inString⟩ := List.mem_flatten.1 inOperand
      obtain ⟨num, atNum⟩ := List.mem_iff_getElem?.1 mem
      obtain ⟨dim, atDim⟩ := List.mem_iff_getElem?.1 inString
      exact ⟨⟨true, num, dim⟩, string, atNum, atDim⟩
    · obtain ⟨dim, atDim⟩ := List.mem_iff_getElem?.1 inResult
      exact ⟨⟨false, 0, dim⟩, result, rfl, atDim⟩

/-- `all_symbols` at the end. -/
def allLabels (operands : List (List Char)) (result : List Char) : List Char :=
  insertSymbols (insertSymbols [] operands.flatten) result

theorem mem_allLabels :
    label ∈ allLabels operands result ↔ ∃ item, HasLabel operands result label item := by
  unfold allLabels
  rw [mem_insertSymbols, mem_insertSymbols, exists_hasLabel_iff]
  simp

theorem nodup_allLabels (operands : List (List Char)) (result : List Char) : (allLabels operands result).Nodup := by
  apply OrderedSet.nodup_of_sorted linear_precedes fun _ _ => trivial
  exact sorted_insertSymbols (sorted_insertSymbols List.Pairwise.nil _) _

theorem dash_notMem_intercalate (noDash : ∀ string ∈ operands, '-' ∉ string) : '-' ∉ [','].intercalate operands := by
  induction operands with
  | nil => exact List.not_mem_nil
  | cons string operands ih =>
    have first := noDash string List.mem_cons_self
    have later := ih fun other mem => noDash other (List.mem_cons_of_mem _ mem)
    cases operands with
    | nil => rwa [List.intercalate_singleton]
    | cons next operands =>
      simp_all

section

variable (someOperand : operands ≠ []) (operandLabels : ∀ string ∈ operands, ∀ symbol ∈ string, IsLabel symbol)
  (noComma : ',' ∉ result)

include someOperand operandLabels noComma

theorem readEinsum_equation :
    readEinsum (einsumEquation operands result) = .ok ⟨operands.map readSymbols, [readSymbols result],
      (allLabels operands result).map fun label => { items := labelItems operands result label }⟩ := by
  have noCommas : ∀ string ∈ operands, ',' ∉ string := fun string mem inString =>
    (operandLabels string mem _ inString).1 rfl
  have noDash := dash_notMem_intercalate fun string mem inString => (operandLabels string mem _ inString).2 rfl
  have parted : splitEquation (einsumEquation operands result) = .ok ([','].intercalate operands, result) := by
    unfold splitEquation einsumEquation
    rw [findArrow_append noDash]
    dsimp only
    rw [List.take_left, List.drop_append, List.drop_eq_nil_of_le (by omega), Nat.add_sub_cancel_left]
    rfl
  unfold readEinsum
  rw [parted]
  change Except.ok _ = _
  rw [handleDescBySeparator_intercalate someOperand noCommas, handleDescBySeparator_single noComma]
  dsimp only
  have grouped : (allLabels operands result).filterMap (symbolGroup (operands.map readSymbols) [readSymbols result]) =
      (allLabels operands result).map fun label => { items := labelItems operands result label } := by
    rw [← @List.filterMap_eq_map _ _ fun label => DimGroup.mk (labelItems operands result label) 0 .sum]
    apply List.filterMap_congr
    intro label mem
    obtain ⟨item, occurs⟩ := mem_allLabels.1 mem
    exact if_neg (labelItems_ne_nil occurs)
  exact congrArg (fun groups => Except.ok (EinsumReading.mk _ _ groups)) grouped

theorem nodup_of_readsEquation (reads : ReadsEquation operands result) {isInput : Bool} {num : Nat}
    {string : List Char} (atNum : (if isInput then operands else [result])[num]? = some string) : string.Nodup := by
  obtain ⟨reading, isRead, _, labels, _, occur, grouped⟩ := reads
  rw [readEinsum_equation someOperand operandLabels noComma] at isRead
  rw [← Except.ok.inj isRead] at grouped
  rw [List.nodup_iff_getElem?_ne_getElem?]
  intro first second ordered inside same
  have atSecond := List.getElem?_eq_getElem inside
  generalize string[second] = symbol at atSecond
  have occursFirst : HasLabel operands result symbol ⟨isInput, num, first⟩ := ⟨string, atNum, same.trans atSecond⟩
  have occursSecond : HasLabel operands result symbol ⟨isInput, num, second⟩ := ⟨string, atNum, atSecond⟩
  obtain ⟨group, isGroup, hasItems⟩ := exists_of_forall₂_of_mem_left grouped ((occur symbol).2 ⟨_, occursFirst⟩)
  obtain ⟨label, _, isItems⟩ := List.mem_map.1 isGroup
  rw [← isItems] at hasItems
  have sameDim := labelItems_functional ((hasItems _).2 occursFirst) ((hasItems _).2 occursSecond) rfl rfl
  exact absurd sameDim (Nat.ne_of_lt ordered)

/-- The groups of the labels are complete where, and only where, no string repeats a label. -/
theorem readsEquation_iff_nodup :
    ReadsEquation operands result ↔ (∀ string ∈ operands, string.Nodup) ∧ result.Nodup := by
  constructor
  · intro reads
    constructor
    · intro string member
      obtain ⟨num, atNum⟩ := List.mem_iff_getElem?.1 member
      exact @nodup_of_readsEquation _ _ someOperand operandLabels noComma reads true _ _ atNum
    · exact @nodup_of_readsEquation _ _ someOperand operandLabels noComma reads false 0 _ rfl
  · rintro ⟨operandNodup, resultNodup⟩
    refine ⟨_, readEinsum_equation someOperand operandLabels noComma, List.length_map _, allLabels operands result,
      nodup_allLabels operands result, fun label => mem_allLabels, ?_⟩
    rw [List.forall₂_map_right_iff, List.forall₂_same]
    intro label _ item
    rw [mem_labelItems]
    apply exists_congr
    intro string
    apply and_congr_right
    intro atNum
    apply readSymbols_eq_some_iff
    cases isSide : item.isInput with
    | true =>
      rw [isSide] at atNum
      exact operandNodup string (List.mem_of_getElem? atNum)
    | false =>
      rw [isSide] at atNum
      rw [List.mem_singleton.1 (List.mem_of_getElem? atNum)]
      exact resultNodup

end

end Equation

/-- A batch of matrix products. -/
theorem matrixProduct_reads : ReadsEquation [['b', 'i', 'j'], ['b', 'j', 'k']] ['b', 'i', 'k'] :=
  (readsEquation_iff_nodup (by decide) (by simp [IsLabel]) (by decide)).2 (by decide)

/-- The diagonal of a matrix: the group of the label has the second dim only. -/
theorem diagonal_misread : ¬ ReadsEquation [['i', 'i']] ['i'] := by
  intro reads
  have nodup := @nodup_of_readsEquation _ _ (by decide) (by simp [IsLabel]) (by decide) reads true 0 ['i', 'i'] rfl
  exact absurd nodup (by decide)

end Itex.XpuAutoShard.Hsp
