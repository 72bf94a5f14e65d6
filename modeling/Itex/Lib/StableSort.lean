import Mathlib

/-!
Contract: stable sorting by a numeric key, digit by digit.

Owns: what a stable sort of a list is and that it is unique, distribution into buckets, the
place each item has after it, and writing items to their places.
-/

set_option autoImplicit false

namespace Itex.Lib

variable {buckets i p : Nat} {α : Type}

/-! ## Stable sorts -/

/-- By increasing key, items of one key in the order they had. -/
structure StableSorted (key : α → Nat) (items sorted : List α) : Prop where
  ordered : sorted.Pairwise fun first second => key first ≤ key second
  stable : ∀ k, sorted.filter (fun item => key item = k) = items.filter (fun item => key item = k)

theorem perm_of_filter_eq {key : α → Nat} {first second : List α}
    (same : ∀ k, first.filter (fun item => key item = k) = second.filter (fun item => key item = k)) :
    first.Perm second := by
  classical
  apply List.perm_iff_count.2
  intro item
  have ofKey : ∀ list : List α, (list.filter fun other => key other = key item).count item = list.count item :=
    fun list => List.count_filter (by simp)
  rw [← ofKey first, ← ofKey second, same]

namespace StableSorted

variable {key : α → Nat} {items sorted : List α}

theorem perm (isSorted : StableSorted key items sorted) : sorted.Perm items :=
  perm_of_filter_eq isSorted.stable

theorem length_eq (isSorted : StableSorted key items sorted) : sorted.length = items.length :=
  isSorted.perm.length_eq

theorem eq_of_filter_eq {first second : List α} (firstOrdered : first.Pairwise fun a b => key a ≤ key b)
    (secondOrdered : second.Pairwise fun a b => key a ≤ key b)
    (same : ∀ k, first.filter (fun item => key item = k) = second.filter (fun item => key item = k)) :
    first = second := by
  induction first generalizing second with
  | nil =>
    cases second with
    | nil => rfl
    | cons head tail => simpa using same (key head)
  | cons head tail ih =>
    cases second with
    | nil => simpa using same (key head)
    | cons head' tail' =>
      rw [List.pairwise_cons] at firstOrdered secondOrdered
      have inSecond : head ∈ head' :: tail' := by
        have inFilter : head ∈ (head' :: tail').filter (fun item => key item = key head) := by
          rw [← same]
          simp
        exact (List.mem_filter.1 inFilter).1
      have inFirst : head' ∈ head :: tail := by
        have inFilter : head' ∈ (head :: tail).filter (fun item => key item = key head') := by
          rw [same]
          simp
        exact (List.mem_filter.1 inFilter).1
      have below : key head' ≤ key head := by
        rcases List.mem_cons.1 inSecond with isHead | later
        · rw [isHead]
        · exact secondOrdered.1 head later
      have above : key head ≤ key head' := by
        rcases List.mem_cons.1 inFirst with isHead | later
        · rw [isHead]
        · exact firstOrdered.1 head' later
      have sameKey : key head' = key head := Nat.le_antisymm below above
      have heads := same (key head)
      rw [List.filter_cons_of_pos (by simp), List.filter_cons_of_pos (by simp [sameKey])] at heads
      have sameHead : head = head' := (List.cons.inj heads).1
      rw [sameHead, ih firstOrdered.2 secondOrdered.2]
      intro k
      have both := same k
      grind

theorem unique {sorted' : List α} (isSorted : StableSorted key items sorted)
    (isSorted' : StableSorted key items sorted') : sorted = sorted' :=
  eq_of_filter_eq isSorted.ordered isSorted'.ordered fun k =>
    (isSorted.stable k).trans (isSorted'.stable k).symm

theorem congr {key' : α → Nat} (isSorted : StableSorted key items sorted)
    (same : ∀ item ∈ items, key' item = key item) : StableSorted key' items sorted where
  ordered := isSorted.ordered.imp_of_mem fun first second le => by
    rwa [same _ (isSorted.perm.mem_iff.1 first), same _ (isSorted.perm.mem_iff.1 second)]
  stable k := by
    have sameFilter : ∀ list : List α, (∀ item ∈ list, item ∈ items) →
        list.filter (fun item => key' item = k) = list.filter (fun item => key item = k) :=
      fun list inside => List.filter_congr fun item isMember => by rw [same _ (inside item isMember)]
    rw [sameFilter sorted fun _ => isSorted.perm.mem_iff.1, sameFilter items fun _ => id, isSorted.stable]

theorem of_add {key' : α → Nat} {bias : Nat} (isSorted : StableSorted key' items sorted)
    (biased : ∀ item ∈ items, key' item = key item + bias) : StableSorted key items sorted where
  ordered := isSorted.ordered.imp_of_mem fun {first second} inFirst inSecond le => by
    rw [biased _ (isSorted.perm.mem_iff.1 inFirst), biased _ (isSorted.perm.mem_iff.1 inSecond)] at le
    exact Nat.le_of_add_le_add_right le
  stable k := by
    have sameFilter : ∀ list : List α, (∀ item ∈ list, item ∈ items) →
        list.filter (fun item => key item = k) = list.filter (fun item => key' item = k + bias) := by
      intro list inside
      apply List.filter_congr
      intro item isMember
      rw [biased item (inside item isMember)]
      simp
    rw [sameFilter sorted fun _ => isSorted.perm.mem_iff.1, sameFilter items fun _ => id, isSorted.stable]

theorem map {β : Type} {key' : β → Nat} {form : α → β} (isSorted : StableSorted key items sorted)
    (same : ∀ item ∈ items, key' (form item) = key item) :
    StableSorted key' (items.map form) (sorted.map form) where
  ordered := by
    rw [List.pairwise_map]
    apply isSorted.ordered.imp_of_mem
    intro first second inFirst inSecond le
    rwa [same _ (isSorted.perm.mem_iff.1 inFirst), same _ (isSorted.perm.mem_iff.1 inSecond)]
  stable k := by
    have filtered := (isSorted.congr same).stable k
    rw [List.filter_map, List.filter_map]
    exact congrArg (List.map form) filtered

theorem start (items : List α) : StableSorted (fun item => key item % 1) items items where
  ordered := by
    apply List.pairwise_of_forall
    intro first second
    rw [Nat.mod_one, Nat.mod_one]
  stable _ := rfl

theorem pairwise {related : α → α → Prop} (isSorted : StableSorted key items sorted)
    (inOrder : items.Pairwise related) : sorted.Pairwise fun first second =>
      key first < key second ∨ (key first = key second ∧ related first second) := by
  apply List.pairwise_iff_forall_sublist.2
  intro first second sub
  have le := List.pairwise_iff_forall_sublist.1 isSorted.ordered sub
  rcases Nat.lt_or_eq_of_le le with less | same
  · exact Or.inl less
  · refine Or.inr ⟨same, ?_⟩
    have kept := sub.filter fun item => key item = key first
    rw [isSorted.stable, List.filter_cons_of_pos (by simp),
      List.filter_cons_of_pos (by simpa using same.symm), List.filter_nil] at kept
    exact List.pairwise_iff_forall_sublist.1 (inOrder.filter _) kept

theorem refine_iff {low : α → Nat} {related : α → α → Prop} (isSorted : StableSorted low items sorted)
    (inOrder : items.Pairwise related) (asymm : ∀ first second, related first second → ¬related second first)
    (coarser : ∀ first second, key first = key second → low first = low second) :
    StableSorted key items sorted ↔ ∀ first ∈ items, ∀ second ∈ items,
      (low first < low second ∨ (low first = low second ∧ related first second)) → key first ≤ key second := by
  have lexical := isSorted.pairwise inOrder
  constructor
  · intro isFine first inFirst second inSecond before
    have never : ∀ a b, (low a < low b ∨ (low a = low b ∧ related a b)) →
        ¬(low b < low a ∨ (low b = low a ∧ related b a)) := by
      intro a b
      have := asymm a b
      grind
    refine List.Pairwise.forall_of_forall_of_flip
      (R := fun a b => (low a < low b ∨ (low a = low b ∧ related a b)) → key a ≤ key b) (fun _ _ _ => Nat.le_refl _)
      (isFine.ordered.imp ?_) (lexical.imp ?_) (isSorted.perm.mem_iff.2 inFirst)
      (isSorted.perm.mem_iff.2 inSecond) before
    · intro a b le _
      exact le
    · intro a b lex back
      exact absurd back (never a b lex)
  · intro agrees
    refine ⟨lexical.imp_of_mem fun inFirst inSecond => agrees _ (isSorted.perm.mem_iff.1 inFirst) _
      (isSorted.perm.mem_iff.1 inSecond), fun k => ?_⟩
    by_cases some : ∃ item, key item = k
    · obtain ⟨item, rfl⟩ := some
      have narrow : ∀ list : List α, list.filter (fun other => key other = key item) =
          (list.filter fun other => low other = low item).filter fun other => key other = key item := by
        intro list
        rw [List.filter_filter]
        apply List.filter_congr
        intro other _
        have := coarser other item
        grind
      rw [narrow sorted, narrow items, isSorted.stable]
    · have none : ∀ list : List α, list.filter (fun other => key other = k) = [] := fun list =>
        List.filter_eq_nil_iff.2 fun other _ isKey => some ⟨other, by simpa using isKey⟩
      rw [none, none]

theorem append {last : Nat} {behind : List α} (isSorted : StableSorted key items sorted)
    (below : ∀ item ∈ items, key item ≤ last) (sameKey : ∀ item ∈ behind, key item = last) :
    StableSorted key (items ++ behind) (sorted ++ behind) where
  ordered := by
    rw [List.pairwise_append]
    refine ⟨isSorted.ordered, ?_, ?_⟩
    · apply List.pairwise_of_forall_mem_list
      intro first inFirst second inSecond
      rw [sameKey first inFirst, sameKey second inSecond]
    · intro first inFirst second inSecond
      rw [sameKey second inSecond]
      exact below first (isSorted.perm.mem_iff.1 inFirst)
  stable k := by
    rw [List.filter_append, List.filter_append, isSorted.stable]

end StableSorted

section Distribute

variable (digit : α → Nat)

def distribute (buckets : Nat) (items : List α) : List α :=
  (List.range buckets).flatMap fun bucket => items.filter fun item => digit item = bucket

variable {digit}

theorem filter_distribute {buckets d : Nat} {items : List α} {test : α → Bool} (inside : d < buckets)
    (ofDigit : ∀ item, test item = true → digit item = d) :
    (distribute digit buckets items).filter test = items.filter test := by
  have each : ∀ bucket, (items.filter fun item => digit item = bucket).filter test =
      if bucket = d then items.filter test else [] := by
    intro bucket
    rw [List.filter_filter]
    split
    next isBucket =>
      apply List.filter_congr
      intro item _
      cases tested : test item with
      | false => rfl
      | true => simp [ofDigit item tested, isBucket]
    next other =>
      apply List.filter_eq_nil_iff.2
      intro item _ both
      rw [Bool.and_eq_true, decide_eq_true_eq] at both
      exact other (both.2.symm.trans (ofDigit item both.1))
  unfold distribute
  rw [List.filter_flatMap]
  simp only [each]
  clear each
  induction buckets with
  | zero => omega
  | succ buckets ih =>
    rw [List.range_succ, List.flatMap_append, List.flatMap_singleton]
    by_cases isLast : buckets = d
    · have before : ((List.range buckets).flatMap fun bucket =>
          if bucket = d then items.filter test else []) = [] := by
        apply List.flatMap_eq_nil_iff.2
        intro bucket listed
        rw [List.mem_range] at listed
        rw [if_neg (by omega)]
      rw [before, if_pos isLast, List.nil_append]
    · rw [if_neg isLast, List.append_nil]
      exact ih (by omega)

theorem distribute_of_forall_eq {d : Nat} {items : List α} (inside : d < buckets)
    (ofDigit : ∀ item ∈ items, digit item = d) : distribute digit buckets items = items := by
  have each : ∀ bucket, items.filter (fun item => digit item = bucket) = if bucket = d then items else [] := by
    intro bucket
    split
    next isBucket =>
      rw [List.filter_eq_self]
      intro item listed
      simp [ofDigit item listed, isBucket]
    next other =>
      rw [List.filter_eq_nil_iff]
      intro item listed isItem
      exact other ((of_decide_eq_true isItem).symm.trans (ofDigit item listed))
  obtain ⟨rest, isRest⟩ := Nat.exists_eq_add_of_lt inside
  have empty : ∀ list : List Nat, d ∉ list → (list.flatMap fun bucket => if bucket = d then items else []) = [] := by
    intro list absent
    apply List.flatMap_eq_nil_iff.2
    intro bucket listed
    have other : bucket ≠ d := ne_of_mem_of_not_mem listed absent
    rw [if_neg other]
  have split : List.range buckets = List.range d ++ d :: List.range' (d + 1) rest := by
    rw [isRest, Nat.add_assoc, List.range_add, ← List.range'_eq_map_range, List.range'_succ]
  unfold distribute
  simp only [each]
  rw [split, List.flatMap_append, List.flatMap_cons, empty _ (by simp), empty _ (by simp), if_pos rfl,
    List.nil_append, List.append_nil]

theorem StableSorted.distribute {key : α → Nat} {items sorted : List α} {m : Nat}
    (isSorted : StableSorted (fun item => key item % m) items sorted) (pos : 0 < m)
    (nonempty : 0 < buckets) (isDigit : ∀ item, digit item = key item / m % buckets) :
    StableSorted (fun item => key item % (m * buckets)) items
      (Lib.distribute digit buckets sorted) where
  ordered := by
    unfold Lib.distribute
    rw [List.pairwise_flatMap]
    constructor
    · intro bucket _
      apply (isSorted.ordered.filter _).imp_of_mem
      intro first second inFirst inSecond le
      have firstDigit := of_decide_eq_true (List.mem_filter.1 inFirst).2
      have secondDigit := of_decide_eq_true (List.mem_filter.1 inSecond).2
      rw [isDigit] at firstDigit secondDigit
      rw [Nat.mod_mul, Nat.mod_mul, firstDigit, secondDigit]
      omega
    · apply List.pairwise_lt_range.imp
      intro lower upper less first inFirst second inSecond
      have firstDigit := of_decide_eq_true (List.mem_filter.1 inFirst).2
      have secondDigit := of_decide_eq_true (List.mem_filter.1 inSecond).2
      rw [isDigit] at firstDigit secondDigit
      rw [Nat.mod_mul, Nat.mod_mul, firstDigit, secondDigit]
      have small : key first % m < m := Nat.mod_lt _ pos
      have next : m * lower + m ≤ m * upper := by
        calc m * lower + m = m * (lower + 1) := (Nat.mul_succ m lower).symm
          _ ≤ m * upper := Nat.mul_le_mul_left m less
      omega
  stable k := by
    have finer : ∀ item, key item % (m * buckets) = k → key item % m = k % m := by
      intro item isKey
      rw [← isKey, Nat.mod_mul_right_mod]
    have ofDigit : ∀ item, key item % (m * buckets) = k → digit item = k / m := by
      intro item isKey
      rw [isDigit, ← isKey, Nat.mod_mul, Nat.add_mul_div_left _ _ pos,
        Nat.div_eq_of_lt (Nat.mod_lt _ pos), Nat.zero_add]
    have through : ∀ list : List α, list.filter (fun item => key item % (m * buckets) = k) =
        (list.filter fun item => key item % m = k % m).filter
          fun item => key item % (m * buckets) = k := by
      intro list
      rw [List.filter_filter]
      apply List.filter_congr
      intro item _
      cases isKey : decide (key item % (m * buckets) = k) with
      | false => rfl
      | true => simp [finer item (of_decide_eq_true isKey)]
    by_cases inside : k / m < buckets
    · rw [filter_distribute inside fun item test => ofDigit item (of_decide_eq_true test),
        through sorted, through items, isSorted.stable]
    · have none : ∀ list : List α, list.filter (fun item => key item % (m * buckets) = k) = [] := by
        intro list
        apply List.filter_eq_nil_iff.2
        intro item _ test
        have isKey := ofDigit item (of_decide_eq_true test)
        have small : digit item < buckets := by
          rw [isDigit]
          exact Nat.mod_lt _ nonempty
        omega
      rw [none, none]

end Distribute

theorem exists_bucket_bound (digits : List Nat) : ∃ buckets, ∀ digit ∈ digits, digit < buckets := by
  induction digits with
  | nil => exact ⟨0, nofun⟩
  | cons head tail ih =>
    obtain ⟨buckets, inside⟩ := ih
    refine ⟨head + 1 + buckets, ?_⟩
    intro digit listed
    rcases List.mem_cons.1 listed with isHead | later
    · omega
    · have := inside digit later
      omega

theorem exists_stableSorted (key : α → Nat) (items : List α) : ∃ sorted, StableSorted key items sorted := by
  obtain ⟨bound, below⟩ := exists_bucket_bound (items.map key)
  have sorted : StableSorted (fun item => key item % (1 * (bound + 1))) items _ :=
    (StableSorted.start items).distribute Nat.one_pos (Nat.succ_pos bound) fun item => rfl
  refine ⟨_, sorted.congr ?_⟩
  intro item listed
  have small := below (key item) (List.mem_map_of_mem listed)
  rw [Nat.one_mul, Nat.mod_eq_of_lt (Nat.lt_succ_of_lt small)]

/-! ## Places -/

/-- Where item `i` goes: behind the items of smaller digits and the earlier ones of its own. -/
def rankIn (digits : List Nat) (i : Nat) : Nat :=
  digits.countP (· < digits.getD i 0) + (digits.take i).countP (· = digits.getD i 0)

theorem length_distribute_lt {digit : α → Nat} (d : Nat) (items : List α) :
    (distribute digit d items).length = items.countP (digit · < d) := by
  induction d with
  | zero => simp [distribute]
  | succ d ih =>
    unfold distribute at ih ⊢
    rw [List.range_succ, List.flatMap_append, List.length_append, ih,
      List.flatMap_singleton, ← List.countP_eq_length_filter]
    clear ih
    induction items with
    | nil => rfl
    | cons head tail ih =>
      simp only [List.countP_cons, decide_eq_true_eq]
      split <;> split <;> split <;> omega

/-- A kept item stands behind the kept ones before it. -/
theorem getElem?_filter_take {test : α → Bool} {items : List α} {item : α}
    (atI : items[i]? = some item) (tested : test item = true) :
    (items.filter test)[((items.take i).filter test).length]? = some item := by
  obtain ⟨bound, isItem⟩ := List.getElem?_eq_some_iff.1 atI
  have cut : items = items.take i ++ item :: items.drop (i + 1) := by
    rw [← isItem, ← List.drop_eq_getElem_cons bound, List.take_append_drop]
  have filtered := congrArg (List.filter test) cut
  rw [List.filter_append, List.filter_cons_of_pos tested] at filtered
  rw [filtered, List.getElem?_append_right (Nat.le_refl _), Nat.sub_self, List.getElem?_cons_zero]

theorem getElem?_distribute {digit : α → Nat} {buckets : Nat} {items : List α}
    (inside : ∀ item ∈ items, digit item < buckets) {i : Nat} {item : α} (atI : items[i]? = some item) :
    (distribute digit buckets items)[rankIn (items.map digit) i]? = some item := by
  have isDigit : (items.map digit).getD i 0 = digit item := by
    rw [List.getD_eq_getElem?_getD, List.getElem?_map, atI]
    rfl
  have small : digit item < buckets := inside _ (List.mem_of_getElem? atI)
  have cut : List.range buckets = List.range (digit item) ++ digit item ::
      ((List.range (buckets - digit item - 1)).map (digit item + 1 + ·)) := by
    have sum : buckets = digit item + (1 + (buckets - digit item - 1)) := by omega
    conv_lhs => rw [sum]
    rw [List.range_add, List.range_add, List.map_append, List.map_map]
    simp [Function.comp_def, Nat.add_assoc]
  have before : (items.map digit).countP (· < digit item) = ((List.range (digit item)).flatMap
      fun bucket => items.filter fun other => digit other = bucket).length := by
    rw [List.countP_map]
    exact (length_distribute_lt _ items).symm
  have placed : (items.filter fun other => digit other = digit item)[
      ((items.map digit).take i).countP (· = digit item)]? = some item := by
    have count : ((items.map digit).take i).countP (· = digit item) =
        ((items.take i).filter fun other => digit other = digit item).length := by
      rw [← List.map_take, List.countP_map, List.countP_eq_length_filter]
      rfl
    rw [count]
    exact getElem?_filter_take atI (decide_eq_true rfl)
  unfold distribute rankIn
  rw [isDigit, cut, List.flatMap_append, List.flatMap_cons, before,
    List.getElem?_append_right (Nat.le_add_right _ _), Nat.add_sub_cancel_left,
    List.getElem?_append_left (List.getElem?_eq_some_iff.1 placed).1, placed]

section Ranks

variable {digits : List Nat}

/-- Distributing the positions shows which position has which rank. -/
theorem exists_places (digits : List Nat) : ∃ places : List Nat, places.Perm (List.range digits.length) ∧
    ∀ i < digits.length, places[rankIn digits i]? = some i := by
  obtain ⟨buckets, inside⟩ := exists_bucket_bound digits
  have asMap : (List.range digits.length).map (fun i => digits.getD i 0) = digits := by
    apply List.ext_getElem?
    intro i
    by_cases bound : i < digits.length
    · simp [List.getD_eq_getElem?_getD, bound]
    · simp [bound]
  have bounded : ∀ i ∈ List.range digits.length, digits.getD i 0 < buckets := by
    intro i listed
    have bound := List.mem_range.1 listed
    rw [List.getD_eq_getElem?_getD, List.getElem?_eq_getElem bound]
    exact inside _ (List.getElem_mem bound)
  refine ⟨distribute (fun i => digits.getD i 0) buckets (List.range digits.length), ?_, ?_⟩
  · apply List.perm_iff_count.2
    intro i
    by_cases small : digits.getD i 0 < buckets
    · have ofPlace := @filter_distribute _ (fun i => digits.getD i 0) _ _ (List.range digits.length) (fun j => j == i) small
        (by simp_all)
      rw [← List.count_filter (p := fun j => j == i) (by simp), ofPlace, List.count_filter (by simp)]
    · have notIn : i ∉ List.range digits.length := fun listed => small (bounded i listed)
      rw [List.count_eq_zero_of_not_mem notIn, List.count_eq_zero_of_not_mem]
      intro listed
      unfold distribute at listed
      rw [List.mem_flatMap] at listed
      obtain ⟨_, _, inBucket⟩ := listed
      exact notIn (List.mem_filter.1 inBucket).1
  · intro i bound
    have place := getElem?_distribute bounded (List.getElem?_range bound)
    rwa [asMap] at place

theorem rankIn_lt {i : Nat} (bound : i < digits.length) : rankIn digits i < digits.length := by
  obtain ⟨places, perm, placed⟩ := exists_places digits
  have inside := (List.getElem?_eq_some_iff.1 (placed i bound)).1
  rwa [perm.length_eq, List.length_range] at inside

theorem rankIn_injective {j : Nat} (boundI : i < digits.length) (boundJ : j < digits.length)
    (same : rankIn digits i = rankIn digits j) : i = j := by
  obtain ⟨places, _, placed⟩ := exists_places digits
  have both := placed i boundI
  rw [same, placed j boundJ] at both
  exact (Option.some.inj both).symm

theorem exists_rankIn_eq {j : Nat} (bound : j < digits.length) : ∃ i < digits.length, rankIn digits i = j := by
  obtain ⟨places, perm, placed⟩ := exists_places digits
  have boundJ : j < places.length := by rwa [perm.length_eq, List.length_range]
  have isPlace : places[j] < digits.length := by
    rw [← List.mem_range]
    exact perm.mem_iff.1 (List.getElem_mem boundJ)
  refine ⟨places[j], isPlace, ?_⟩
  have nodup : places.Nodup := perm.nodup_iff.2 List.nodup_range
  obtain ⟨boundRank, atRank⟩ := List.getElem?_eq_some_iff.1 (placed _ isPlace)
  exact (nodup.getElem_inj_iff).1 atRank

end Ranks

theorem countP_eq_sum (test : Nat → Bool) (digits : List Nat) :
    digits.countP test = ∑ j ∈ Finset.range digits.length, if test (digits.getD j 0) then 1 else 0 := by
  induction digits using List.reverseRecOn with
  | nil => rfl
  | append_singleton digits last ih =>
    have isLast : (digits ++ [last]).getD digits.length 0 = last := by
      simp [List.getD_eq_getElem?_getD]
    rw [List.length_append, List.length_singleton, Finset.sum_range_succ, isLast, List.countP_append,
      List.countP_singleton, ih]
    congr 1
    apply Finset.sum_congr rfl
    intro j inside
    rw [List.getD_eq_getElem?_getD, List.getD_eq_getElem?_getD,
      List.getElem?_append_left (Finset.mem_range.1 inside)]

theorem countP_take_eq_sum (test : Nat → Bool) {digits : List Nat} {count : Nat} (le : count ≤ digits.length) :
    (digits.take count).countP test = ∑ j ∈ Finset.range count, if test (digits.getD j 0) then 1 else 0 := by
  rw [countP_eq_sum, List.length_take, Nat.min_eq_left le]
  apply Finset.sum_congr rfl
  intro j inside
  rw [List.getD_eq_getElem?_getD, List.getD_eq_getElem?_getD, List.getElem?_take_of_lt (Finset.mem_range.1 inside)]

theorem countP_lt_succ (digits : List Nat) (digit : Nat) :
    digits.countP (· < digit + 1) = digits.countP (· < digit) + digits.countP (· = digit) := by
  induction digits with
  | nil => rfl
  | cons head tail ih =>
    rw [List.countP_cons, List.countP_cons, List.countP_cons, ih]
    simp only [decide_eq_true_eq]
    split_ifs <;> omega

theorem rankIn_eq_sum (digits : List Nat) (i : Nat) : rankIn digits i = ∑ j ∈ Finset.range digits.length,
      ((if digits.getD j 0 < digits.getD i 0 then 1 else 0) +
        if j < i ∧ digits.getD j 0 = digits.getD i 0 then 1 else 0) := by
  unfold rankIn
  generalize digits.getD i 0 = digit
  induction digits using List.reverseRecOn with
  | nil => simp
  | append_singleton digits last ih =>
    have isLast : (digits ++ [last]).getD digits.length 0 = last := by
      simp [List.getD_eq_getElem?_getD]
    have before : ∀ j ∈ Finset.range digits.length, ((if (digits ++ [last]).getD j 0 < digit then 1 else 0) +
          if j < i ∧ (digits ++ [last]).getD j 0 = digit then 1 else 0) =
        (if digits.getD j 0 < digit then 1 else 0) + if j < i ∧ digits.getD j 0 = digit then 1 else 0 := by
      intro j inside
      rw [List.getD_eq_getElem?_getD, List.getElem?_append_left (Finset.mem_range.1 inside),
        ← List.getD_eq_getElem?_getD]
    rw [List.length_append, List.length_singleton, Finset.sum_range_succ, isLast,
      Finset.sum_congr rfl before, ← ih, List.countP_append, List.countP_singleton]
    by_cases within : i ≤ digits.length
    · rw [List.take_append_of_le_length within, if_neg (by omega : ¬ (digits.length < i ∧ last = digit))]
      simp only [decide_eq_true_eq]
      omega
    · rw [List.take_of_length_le (by simp; omega), List.take_of_length_le (by omega),
        List.countP_append, List.countP_singleton]
      have beyond : digits.length < i := by omega
      simp only [decide_eq_true_eq, beyond, true_and]
      omega

theorem length_distribute {digit : α → Nat} {items : List α}
    (inside : ∀ item ∈ items, digit item < buckets) : (distribute digit buckets items).length = items.length := by
  rw [length_distribute_lt, List.countP_eq_length.2]
  intro item listed
  exact decide_eq_true (inside item listed)

/-- Items behind, of no smaller digit, do not move the items in front. -/
theorem rankIn_append {digits behind : List Nat} (last : ∀ digit ∈ digits, ∀ other ∈ behind, digit ≤ other)
    (bound : i < digits.length) : rankIn (digits ++ behind) i = rankIn digits i := by
  have isDigit : (digits ++ behind).getD i 0 = digits.getD i 0 := by
    rw [List.getD_eq_getElem?_getD, List.getElem?_append_left bound, ← List.getD_eq_getElem?_getD]
  have listed : digits.getD i 0 ∈ digits := by
    rw [List.getD_eq_getElem?_getD, List.getElem?_eq_getElem bound]
    exact List.getElem_mem bound
  have none : behind.countP (fun digit => digit < digits.getD i 0) = 0 := by
    apply List.countP_eq_zero.2
    intro other isBehind
    have := last _ listed other isBehind
    simp only [decide_eq_true_eq]
    omega
  unfold rankIn
  rw [isDigit, List.countP_append, none, Nat.add_zero, List.take_append_of_le_length (Nat.le_of_lt bound)]

theorem perm_of_places {first second : List α} {place : Nat → Nat} (length : first.length = second.length)
    (below : ∀ i < second.length, place i < second.length)
    (injective : ∀ i < second.length, ∀ j < second.length, place i = place j → i = j)
    (same : ∀ i < second.length, first[place i]? = second[i]?) : first.Perm second := by
  have asRange : ∀ list : List α, list.map some = (List.range list.length).map fun i => list[i]? := by
    intro list
    apply List.ext_getElem
    · simp
    · intro i _ _
      simp
  have places : ((List.range second.length).map place).Perm (List.range second.length) := by
    apply List.Subperm.perm_of_length_le
    · apply List.Nodup.subperm
      · apply List.Nodup.map_on _ List.nodup_range
        intro i inside j inside' isSame
        exact injective i (List.mem_range.1 inside) j (List.mem_range.1 inside') isSame
      · intro address listed
        obtain ⟨i, inside, isPlace⟩ := List.mem_map.1 listed
        rw [← isPlace]
        exact List.mem_range.2 (below i (List.mem_range.1 inside))
    · simp
  have ofSome : (first.map some).Perm (second.map some) := by
    have moved : second.map some = ((List.range second.length).map place).map fun address => first[address]? := by
      rw [asRange second, List.map_map]
      apply List.map_congr_left
      intro i inside
      exact (same i (List.mem_range.1 inside)).symm
    rw [moved, asRange first, length]
    exact (places.map _).symm
  have back : ∀ list : List α, (list.map some).filterMap id = list := by
    intro list
    rw [List.filterMap_map]
    exact List.filterMap_some
  rw [← back first, ← back second]
  exact ofSome.filterMap id

section Order

variable {key : Nat → Nat} {n : Nat} {order : List Nat} (isOrder : StableSorted key (List.range n) order)

include isOrder

theorem StableSorted.length_order : order.length = n := by
  rw [isOrder.length_eq, List.length_range]

theorem StableSorted.getElem?_order (bound : p < n) : order[p]? = some (order.getD p 0) := by
  have inside : p < order.length := by rwa [isOrder.length_order]
  rw [List.getD_eq_getElem?_getD, List.getElem?_eq_getElem inside]
  rfl

theorem StableSorted.order_lt (bound : p < n) : order.getD p 0 < n :=
  List.mem_range.1 (isOrder.perm.mem_iff.1 (List.mem_of_getElem? (isOrder.getElem?_order bound)))

theorem StableSorted.exists_order_eq {k : Nat} (bound : k < n) : ∃ p < n, order.getD p 0 = k := by
  obtain ⟨p, inside, atP⟩ := List.mem_iff_getElem.1 (isOrder.perm.mem_iff.2 (List.mem_range.2 bound))
  refine ⟨p, by rwa [isOrder.length_order] at inside, ?_⟩
  rw [List.getD_eq_getElem?_getD, List.getElem?_eq_getElem inside, atP]
  rfl

/-- An index stands before another of a larger key, or of the same key and behind it. -/
theorem StableSorted.order_lex {q : Nat} (before : p < q) (bound : q < n) :
    key (order.getD p 0) < key (order.getD q 0) ∨
      (key (order.getD p 0) = key (order.getD q 0) ∧ order.getD p 0 < order.getD q 0) := by
  have ordered := isOrder.pairwise List.pairwise_lt_range
  have insideQ : q < order.length := by rwa [isOrder.length_order]
  have both := List.pairwise_iff_getElem.1 ordered p q (Nat.lt_trans before insideQ) insideQ before
  simpa [List.getD_eq_getElem?_getD, List.getElem?_eq_getElem insideQ,
    List.getElem?_eq_getElem (Nat.lt_trans before insideQ)] using both

theorem StableSorted.order_injective {q : Nat} (boundP : p < n) (boundQ : q < n)
    (same : order.getD p 0 = order.getD q 0) : p = q := by
  rcases Nat.lt_trichotomy p q with less | isSame | more
  · have := isOrder.order_lex less boundQ
    rw [same] at this
    omega
  · exact isSame
  · have := isOrder.order_lex more boundP
    rw [same] at this
    omega

theorem StableSorted.countP_order (test : Nat → Bool) :
    (List.range n).countP test = (List.range n).countP fun p => test (order.getD p 0) := by
  have isMap : order = (List.range n).map fun p => order.getD p 0 := by
    apply List.ext_getElem?
    intro p
    by_cases inside : p < n
    · rw [isOrder.getElem?_order inside, List.getElem?_map, List.getElem?_range inside]
      rfl
    · rw [List.getElem?_eq_none (by rw [isOrder.length_order]; omega), List.getElem?_eq_none (by simp; omega)]
  calc (List.range n).countP test = order.countP test := (isOrder.perm.countP_eq test).symm
    _ = ((List.range n).map fun p => order.getD p 0).countP test := by rw [← isMap]
    _ = _ := List.countP_map

end Order

/-! ## Writing to places -/

/-- The memory after writes at the addresses. -/
def scatter (memory : List α) (writes : List (Nat × α)) : List α :=
  writes.foldl (fun memory write => memory.set write.1 write.2) memory

theorem length_scatter (memory : List α) (writes : List (Nat × α)) :
    (scatter memory writes).length = memory.length := by
  induction writes generalizing memory with
  | nil => rfl
  | cons write rest ih =>
    exact (ih (memory.set write.1 write.2)).trans List.length_set

theorem getElem?_scatter_other {memory : List α} {writes : List (Nat × α)} {address : Nat}
    (other : address ∉ writes.map Prod.fst) : (scatter memory writes)[address]? = memory[address]? := by
  induction writes generalizing memory with
  | nil => rfl
  | cons write rest ih =>
    rw [List.map_cons, List.mem_cons, not_or] at other
    exact (ih other.2).trans (List.getElem?_set_ne (Ne.symm other.1))

theorem getElem?_scatter {memory : List α} {writes : List (Nat × α)} {write : Nat × α}
    (nodup : (writes.map Prod.fst).Nodup) (listed : write ∈ writes) (inside : write.1 < memory.length) :
    (scatter memory writes)[write.1]? = some write.2 := by
  induction writes generalizing memory with
  | nil => cases listed
  | cons head rest ih =>
    rw [List.map_cons, List.nodup_cons] at nodup
    rcases List.mem_cons.1 listed with isHead | later
    · rw [isHead] at inside ⊢
      exact (getElem?_scatter_other nodup.1).trans (List.getElem?_set_self inside)
    · exact ih nodup.2 later (by rwa [List.length_set])

theorem nodup_ranks (digits : List Nat) : ((List.range digits.length).map (rankIn digits)).Nodup := by
  apply List.Nodup.map_on _ List.nodup_range
  intro i boundI j boundJ same
  exact rankIn_injective (List.mem_range.1 boundI) (List.mem_range.1 boundJ) same

/-- The items with their ranks as addresses. -/
def placed (digits : List Nat) (items : List α) : List (Nat × α) :=
  ((List.range digits.length).map (rankIn digits)).zip items

theorem map_fst_placed {digits : List Nat} {items : List α} (length : items.length = digits.length) :
    (placed digits items).map Prod.fst = (List.range digits.length).map (rankIn digits) := by
  unfold placed
  rw [List.map_fst_zip]
  simp [length]

theorem mem_placed {digits : List Nat} {items : List α} {item : α}
    (bound : i < digits.length) (atI : items[i]? = some item) : (rankIn digits i, item) ∈ placed digits items := by
  have atRank : (placed digits items)[i]? = some (rankIn digits i, item) := by
    unfold placed
    rw [List.getElem?_zip_eq_some]
    refine ⟨?_, atI⟩
    rw [List.getElem?_map, List.getElem?_range bound]
    rfl
  exact List.mem_of_getElem? atRank

theorem getElem?_scatter_placed {β : Type} {digit : α → Nat} {items : List α}
    (form : α → β) (memory : List β) (inside : ∀ item ∈ items, digit item < buckets)
    (keep : Nat → Bool) (j : Nat) :
    (scatter memory
        ((placed (items.map digit) (items.map form)).filter fun write => keep write.1))[j]? =
      if j < items.length ∧ j < memory.length ∧ keep j = true then
        ((distribute digit buckets items).map form)[j]? else memory[j]? := by
  have addresses : (placed (items.map digit) (items.map form)).map Prod.fst = _ :=
    map_fst_placed (by simp)
  have sub : ((placed (items.map digit) (items.map form)).filter fun write => keep write.1).map Prod.fst
      |>.Sublist ((List.range (items.map digit).length).map (rankIn (items.map digit))) := by
    rw [← addresses]
    exact List.filter_sublist.map Prod.fst
  split
  next isPlace =>
    have bound : j < (items.map digit).length := by
      rw [List.length_map]
      exact isPlace.1
    obtain ⟨i, boundI, isRank⟩ := exists_rankIn_eq bound
    obtain ⟨item, atI⟩ : ∃ item, items[i]? = some item :=
      ⟨_, List.getElem?_eq_getElem (by simpa using boundI)⟩
    have atForm : (items.map form)[i]? = some (form item) := by
      rw [List.getElem?_map, atI]
      rfl
    have listed : (j, form item) ∈
        (placed (items.map digit) (items.map form)).filter fun write => keep write.1 := by
      rw [List.mem_filter, ← isRank]
      exact ⟨mem_placed boundI atForm, by rw [isRank]; exact isPlace.2.2⟩
    have isWritten := getElem?_scatter (sub.nodup (nodup_ranks _)) listed isPlace.2.1
    have isPlaced := getElem?_distribute inside atI
    rw [isRank] at isPlaced
    rw [List.getElem?_map, isPlaced]
    exact isWritten
  next isOther =>
    by_cases beyond : j < memory.length
    · apply getElem?_scatter_other
      intro listed
      have isRank := sub.mem listed
      obtain ⟨write, isWrite, isAddress⟩ := List.mem_map.1 listed
      obtain ⟨i, boundI, isJ⟩ := List.mem_map.1 isRank
      have bound := rankIn_lt (List.mem_range.1 boundI)
      rw [isJ, List.length_map] at bound
      have kept := (List.mem_filter.1 isWrite).2
      rw [isAddress] at kept
      exact isOther ⟨bound, beyond, kept⟩
    · rw [List.getElem?_eq_none (by rw [length_scatter]; omega), List.getElem?_eq_none (by omega)]

theorem scatter_placed {digit : α → Nat} {items memory : List α}
    (inside : ∀ item ∈ items, digit item < buckets) (length : memory.length = items.length) :
    scatter memory (placed (items.map digit) items) = distribute digit buckets items := by
  apply List.ext_getElem?
  intro j
  have isPlaced := getElem?_scatter_placed id memory inside (fun _ => true) j
  rw [List.map_id, List.map_id, List.filter_true] at isPlaced
  rw [isPlaced]
  split
  next => rfl
  next beyond =>
    rw [List.getElem?_eq_none (by simpa [length] using beyond), List.getElem?_eq_none]
    rw [length_distribute inside]
    simpa [length] using beyond

end Itex.Lib
