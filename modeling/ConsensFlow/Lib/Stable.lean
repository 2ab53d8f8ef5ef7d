/-
  File:      ConsensFlow/Lib/Stable.lean
  Subject:   STABLE SORTING BY A KEY: what two sorted lists must share to be one.

  * `sortByKey` -- elements sorted by their keys, those of one key as they stood;
  * `sortByKey_perm`, `sortByKey_sorted`, **`sortByKey_filter`** -- nothing is lost, the keys
    ascend, and the elements of a key keep their order;
  * **`eq_of_sorted`** -- no other list does the three;
  * `sortByKey_filterMap`, `sortByKey_map` -- elements changed, but for their keys, are sorted as
    they were.
-/
import Mathlib

namespace Lib.Stable

variable {α β κ : Type} [LinearOrder κ] {key : α → κ} {as bs : List α}

/-- The elements by their keys, ascending, those of one key in the order they stood in. -/
def sortByKey (key : α → κ) (as : List α) : List α :=
  as.mergeSort fun a b => decide (key a ≤ key b)

/-- Keys that ascend. -/
def Ascending (key : α → κ) (as : List α) : Prop := as.Pairwise fun a b => key a ≤ key b

theorem sortByKey_perm (key : α → κ) (as : List α) : (sortByKey key as).Perm as :=
  List.mergeSort_perm as _

theorem le_trans_key (a b c : α) (first : decide (key a ≤ key b) = true)
    (second : decide (key b ≤ key c) = true) : decide (key a ≤ key c) = true :=
  decide_eq_true (le_trans (of_decide_eq_true first) (of_decide_eq_true second))

theorem le_total_key (a b : α) : (decide (key a ≤ key b) || decide (key b ≤ key a)) = true :=
  Bool.or_eq_true_iff.2 ((le_total (key a) (key b)).imp decide_eq_true decide_eq_true)

theorem sortByKey_sorted (key : α → κ) (as : List α) : Ascending key (sortByKey key as) :=
  (List.pairwise_mergeSort le_trans_key le_total_key as).imp of_decide_eq_true

/-- **The elements of one key keep their order.** -/
theorem sortByKey_filter (key : α → κ) (as : List α) (k : κ) :
    (sortByKey key as).filter (fun a => key a = k) = as.filter fun a => key a = k := by
  have one : (as.filter fun a => key a = k).Pairwise
      fun a b => decide (key a ≤ key b) = true := by
    refine List.pairwise_of_forall_mem_list fun a ha b hb => decide_eq_true (le_of_eq ?_)
    exact (of_decide_eq_true (List.mem_filter.1 ha).2).trans
      (of_decide_eq_true (List.mem_filter.1 hb).2).symm
  have within := List.sublist_mergeSort le_trans_key le_total_key one List.filter_sublist
  have among := within.filter fun a => decide (key a = k)
  rw [List.filter_filter] at among
  simp only [Bool.and_self] at among
  refine (among.eq_of_length ?_).symm
  exact ((sortByKey_perm key as).filter _).length_eq.symm

/-- **Sorted lists with the same elements of every key are one.** -/
theorem eq_of_sorted (ha : Ascending key as) (hb : Ascending key bs)
    (same : ∀ k, as.filter (fun a => key a = k) = bs.filter fun a => key a = k) : as = bs := by
  induction as generalizing bs with
  | nil =>
    cases bs with
    | nil => rfl
    | cons b bs =>
      have none_ := same (key b)
      rw [List.filter_nil, List.filter_cons_of_pos (by simp)] at none_
      cases none_
  | cons a as ih =>
    cases bs with
    | nil =>
      have none_ := same (key a)
      rw [List.filter_nil, List.filter_cons_of_pos (by simp)] at none_
      cases none_
    | cons b bs =>
      obtain ⟨least, after⟩ := List.pairwise_cons.1 ha
      obtain ⟨least', after'⟩ := List.pairwise_cons.1 hb
      have in_ : b ∈ a :: as := by
        have one : b ∈ (b :: bs).filter fun c => key c = key b :=
          List.mem_filter.2 ⟨List.mem_cons_self, by simp⟩
        rw [← same] at one
        exact (List.mem_filter.1 one).1
      have in' : a ∈ b :: bs := by
        have one : a ∈ (a :: as).filter fun c => key c = key a :=
          List.mem_filter.2 ⟨List.mem_cons_self, by simp⟩
        rw [same] at one
        exact (List.mem_filter.1 one).1
      have le : key a ≤ key b := by
        rcases List.mem_cons.1 in_ with rfl | in_
        · exact le_refl _
        · exact least b in_
      have ge : key b ≤ key a := by
        rcases List.mem_cons.1 in' with rfl | in'
        · exact le_refl _
        · exact least' a in'
      have first := same (key a)
      rw [List.filter_cons_of_pos (by simp),
        List.filter_cons_of_pos (by simp [le_antisymm ge le])] at first
      have head := (List.cons.inj first).1
      subst head
      refine congrArg (a :: ·) (ih after after' fun k => ?_)
      have rest := same k
      by_cases here : key a = k
      · rw [List.filter_cons_of_pos (by simp [here]), List.filter_cons_of_pos (by simp [here])]
          at rest
        exact (List.cons.inj rest).2
      · rw [List.filter_cons_of_neg (by simp [here]), List.filter_cons_of_neg (by simp [here])]
          at rest
        exact rest

theorem sortByKey_eq (sorted : Ascending key bs)
    (same : ∀ k, bs.filter (fun a => key a = k) = as.filter fun a => key a = k) :
    sortByKey key as = bs :=
  eq_of_sorted (sortByKey_sorted key as) sorted fun k =>
    (sortByKey_filter key as k).trans (same k).symm

theorem sortByKey_of_sorted (sorted : Ascending key as) : sortByKey key as = as :=
  sortByKey_eq sorted fun _ => rfl

/-- A stable sort of what some elements become, when they keep their keys. -/
theorem sortByKey_filterMap {key' : β → κ} {f : α → Option β}
    (keeps : ∀ a b, f a = some b → key' b = key a) (as : List α) :
    sortByKey key' (as.filterMap f) = (sortByKey key as).filterMap f := by
  have test (bs : List α) (k : κ) : (bs.filterMap f).filter (fun b => key' b = k) =
      (bs.filter fun a => key a = k).filterMap f := by
    rw [List.filter_filterMap, List.filterMap_filter]
    refine List.filterMap_congr fun a _ => ?_
    cases became : f a with
    | none => simp
    | some b =>
      by_cases here : key a = k
      · rw [if_pos (decide_eq_true here)]
        simp [keeps a b became, here]
      · rw [if_neg (by simpa using here)]
        simp [keeps a b became, here]
  refine sortByKey_eq ?_ fun k => ?_
  · refine List.pairwise_filterMap.2 ((sortByKey_sorted key as).imp ?_)
    intro a a' less b became b' became'
    rw [keeps a b became, keeps a' b' became']
    exact less
  · rw [test, test, sortByKey_filter]

/-- Elements changed, but for their keys, are sorted as they were. -/
theorem sortByKey_map {key' : β → κ} {f : α → β} (keeps : ∀ a, key' (f a) = key a)
    (as : List α) : sortByKey key' (as.map f) = (sortByKey key as).map f := by
  rw [← List.filterMap_eq_map]
  refine sortByKey_filterMap (fun a b became => ?_) as
  rw [← Option.some.inj became]
  exact keeps a

end Lib.Stable
