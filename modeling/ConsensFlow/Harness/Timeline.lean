/-
  File:      ConsensFlow/Harness/Timeline.lean
  Subject:   A RECORD'S TIMELINE (`Timeline`): its items and those only the history shows, in the
             history's order, from any place on.

  * `Timeline.from_` -- the source's iterator, from the place its start is computed at;
  * `woven` -- the order itself: before each item those of its place, and at the end those past the
    last;
  * `drain_woven`, `drain_start` -- from the start the iterator gives the order, and from its place
    `k` on what it gives from there;
  * **`timeline_from`** -- so a page starts anywhere in one and the same order.
-/
import ConsensFlow.Harness.Drawn

namespace ConsensFlow
namespace Harness

/-! ## 1. The iterator -/

/-- A record's items, and those only the history shows. -/
structure Timeline where
  items : List Item
  beside : List (Nat × Item)

namespace Timeline

/-- The iterator's steps from here to its end: each item, and whether it is one beside. -/
def drain (t : Timeline) (nextItem nextBeside : Nat) : List (Item × Bool) :=
  match _ : (t.beside[nextBeside]?).filter fun one => one.1 ≤ nextItem with
  | some (_, item) => (item, true) :: drain t nextItem (nextBeside + 1)
  | none =>
    match _ : t.items[nextItem]? with
    | some item => (item, false) :: drain t (nextItem + 1) nextBeside
    | none => []
termination_by (t.items.length - nextItem) + (t.beside.length - nextBeside)
decreasing_by
  · next h =>
    obtain ⟨h, -⟩ := Option.filter_eq_some_iff.1 h
    have := (List.getElem?_eq_some_iff.1 h).1
    omega
  · next h =>
    have := (List.getElem?_eq_some_iff.1 h).1
    omega

/-- The items beside that stand before `first`: one at place `p` among the items, the `j`th of them,
    stands at `p + j`. -/
def skipped (t : Timeline) (first : Nat) : Nat :=
  (t.beside.zipIdx.takeWhile fun one => one.1.1 + one.2 < first).length

/-- `from`: its items from the one at `first` on. -/
def from_ (t : Timeline) (first : Nat) : List (Item × Bool) :=
  t.drain (first - min (t.skipped first) first) (t.skipped first)

/-- Its own order: before each item those beside at its place, and those past the last at the end;
    `at_` is the place of the first item. -/
def woven : Nat → List Item → List (Nat × Item) → List (Item × Bool)
  | at_, [], beside => (beside.filter fun one => one.1 == at_).map fun one => (one.2, true)
  | at_, item :: items, beside =>
    ((beside.filter fun one => one.1 == at_).map fun one => (one.2, true)) ++
      (item, false) :: woven (at_ + 1) items beside

/-! ## 2. From the start it gives the order -/

theorem drain_beside {t : Timeline} {i j p : Nat} {item : Item} (h : t.beside[j]? = some (p, item))
    (hp : p ≤ i) : t.drain i j = (item, true) :: t.drain i (j + 1) := by
  have here : (t.beside[j]?).filter (fun one => one.1 ≤ i) = some (p, item) := by
    rw [h, Option.filter_some, if_pos (decide_eq_true hp)]
  rw [drain]
  split
  · next p' item' e =>
    rw [here] at e
    cases e
    rfl
  · next e => rw [here] at e; cases e

theorem drain_item {t : Timeline} {i j : Nat} {item : Item}
    (h : ∀ one ∈ t.beside[j]?, i < one.1) (hi : t.items[i]? = some item) :
    t.drain i j = (item, false) :: t.drain (i + 1) j := by
  have later : (t.beside[j]?).filter (fun one => one.1 ≤ i) = none := by
    rw [Option.filter_eq_none_iff]
    intro one hone
    have := h one hone
    rw [decide_eq_true_eq]
    omega
  rw [drain]
  split
  · next e => rw [later] at e; cases e
  · split
    · next item' e =>
      rw [hi] at e
      cases e
      rfl
    · next e => rw [hi] at e; cases e

theorem drain_end {t : Timeline} {i j : Nat} (h : t.beside[j]? = none) (hi : t.items[i]? = none) :
    t.drain i j = [] := by
  rw [drain]
  split
  · next e => rw [h] at e; cases e
  · split
    · next e => rw [hi] at e; cases e
    · rfl

/-- One that stands before the next item is given before it. -/
theorem woven_beside {at_ : Nat} {item : Item} (items : List Item) (beside : List (Nat × Item)) :
    woven at_ items ((at_, item) :: beside) = (item, true) :: woven at_ items beside := by
  have past : ∀ (n : Nat) (items : List Item), at_ < n →
      woven n items ((at_, item) :: beside) = woven n items beside := by
    intro n items
    induction items generalizing n with
    | nil =>
      intro hn
      rw [woven, woven, List.filter_cons_of_neg (by simp only [beq_iff_eq]; omega)]
    | cons x items ih =>
      intro hn
      rw [woven, woven, List.filter_cons_of_neg (by simp only [beq_iff_eq]; omega),
        ih (n + 1) (by omega)]
  have here : ((at_, item) :: beside).filter (fun one => one.1 == at_) =
      (at_, item) :: beside.filter fun one => one.1 == at_ :=
    List.filter_cons_of_pos (by simp)
  cases items with
  | nil => rw [woven, woven, here, List.map_cons]
  | cons x items => rw [woven, woven, here, past (at_ + 1) items (by omega), List.map_cons,
      List.cons_append]

/-- With none at its place, the next item is given. -/
theorem woven_item {at_ : Nat} {item : Item} {items : List Item} {beside : List (Nat × Item)}
    (h : ∀ one ∈ beside, at_ < one.1) :
    woven at_ (item :: items) beside = (item, false) :: woven (at_ + 1) items beside := by
  have none_ : beside.filter (fun one => one.1 == at_) = [] := by
    refine List.filter_eq_nil_iff.2 fun one hone => ?_
    have := h one hone
    rw [beq_iff_eq]
    omega
  rw [woven, none_, List.map_nil, List.nil_append]

/-- From one on, those beside stand no earlier than it. -/
theorem later_of_none {t : Timeline} (h : Items.InPlace t.items t.beside) {i j : Nat}
    (none_ : (t.beside[j]?).filter (fun one => one.1 ≤ i) = none) :
    ∀ one ∈ t.beside.drop j, i < one.1 := by
  intro one hone
  obtain ⟨k, hk, rfl⟩ := List.getElem_of_mem hone
  rw [List.getElem_drop]
  rw [List.length_drop] at hk
  have first : t.beside[j]? = some t.beside[j] := List.getElem?_eq_getElem (by omega)
  rw [first, Option.filter_some] at none_
  have past : i < t.beside[j].1 := by
    by_contra k
    rw [if_pos (decide_eq_true (by omega))] at none_
    cases none_
  rcases Nat.eq_zero_or_pos k with rfl | later
  · exact past
  · have forward := List.pairwise_iff_getElem.1 h.forward j (j + k) (by omega) (by omega) (by omega)
    omega

/-- **The iterator gives the order**, from anywhere in it. -/
theorem drain_woven {t : Timeline} (h : Items.InPlace t.items t.beside) (i j : Nat)
    (within : i ≤ t.items.length) (left : ∀ one ∈ t.beside.drop j, i ≤ one.1) :
    t.drain i j = woven i (t.items.drop i) (t.beside.drop j) := by
  fun_induction drain t i j with
  | case1 i j p item here ih =>
    obtain ⟨one, before⟩ := Option.filter_eq_some_iff.1 here
    obtain ⟨hj, e⟩ := List.getElem?_eq_some_iff.1 one
    have rest : t.beside.drop j = (p, item) :: t.beside.drop (j + 1) := by
      rw [List.drop_eq_getElem_cons hj, e]
    rw [rest] at left ⊢
    have p_ : p = i := Nat.le_antisymm (of_decide_eq_true before) (left _ List.mem_cons_self)
    rw [p_, woven_beside, ih within fun x hx => left x (List.mem_cons_of_mem _ hx)]
  | case2 i j none_ item here ih =>
    obtain ⟨hi, e⟩ := List.getElem?_eq_some_iff.1 here
    have later := later_of_none h none_
    rw [List.drop_eq_getElem_cons hi, e, woven_item later, ih (by omega) later]
  | case3 i j none_ ended =>
    have past : t.items.length ≤ i := List.getElem?_eq_none_iff.1 ended
    have nothing : t.beside.drop j = [] := by
      refine List.eq_nil_iff_forall_not_mem.2 fun one hone => ?_
      have := later_of_none h none_ one hone
      have := h.within one (List.mem_of_mem_drop hone)
      omega
    rw [nothing, List.drop_of_length_le past]
    rfl

/-! ## 3. From a place on it gives what is left -/

/-- Where a run taken while something holds ends. -/
theorem takeWhile_ends {α : Type} (p : α → Bool) (l : List α) :
    (∀ j x, j < (l.takeWhile p).length → l[j]? = some x → p x = true) ∧
      ∀ x, l[(l.takeWhile p).length]? = some x → p x = false := by
  induction l with
  | nil => exact ⟨fun j x h => absurd h (Nat.not_lt_zero j), fun x h => by simp at h⟩
  | cons a l ih =>
    by_cases ha : p a = true
    · rw [List.takeWhile_cons_of_pos ha, List.length_cons]
      refine ⟨fun j x hj hx => ?_, fun x hx => ih.2 x (by simpa using hx)⟩
      cases j with
      | zero =>
        obtain rfl : a = x := by simpa using hx
        exact ha
      | succ j => exact ih.1 j x (by omega) (by simpa using hx)
    · rw [List.takeWhile_cons_of_neg ha, List.length_nil]
      refine ⟨fun j x h => absurd h (Nat.not_lt_zero j), fun x hx => ?_⟩
      obtain rfl : a = x := by simpa using hx
      exact Bool.eq_false_iff.2 ha

theorem zipIdx_at {t : Timeline} {j : Nat} {one : Nat × Item} (h : t.beside[j]? = some one) :
    t.beside.zipIdx[j]? = some (one, j) := by
  rw [List.getElem?_zipIdx, h, Nat.zero_add]
  rfl

/-- Those skipped stand before the place. -/
theorem skipped_before {t : Timeline} {first j : Nat} {one : Nat × Item} (h : j < t.skipped first)
    (hone : t.beside[j]? = some one) : one.1 + j < first :=
  of_decide_eq_true ((takeWhile_ends _ t.beside.zipIdx).1 j (one, j) h (zipIdx_at hone))

/-- The next does not. -/
theorem skipped_end {t : Timeline} {first : Nat} {one : Nat × Item}
    (hone : t.beside[t.skipped first]? = some one) : first ≤ one.1 + t.skipped first :=
  Nat.le_of_not_lt (of_decide_eq_false
    ((takeWhile_ends _ t.beside.zipIdx).2 (one, t.skipped first) (zipIdx_at hone)))

theorem skipped_le (t : Timeline) (first : Nat) :
    t.skipped first ≤ t.beside.length ∧ t.skipped first ≤ first := by
  have inside : t.skipped first ≤ t.beside.length := by
    have taken := (List.takeWhile_prefix (l := t.beside.zipIdx)
      fun one => decide (one.1.1 + one.2 < first)).length_le
    rwa [List.length_zipIdx] at taken
  refine ⟨inside, Nat.le_of_not_lt fun past => ?_⟩
  have := skipped_before past (List.getElem?_eq_getElem (Nat.lt_of_lt_of_le past inside))
  omega

theorem skipped_unique {t : Timeline} {first n : Nat} (hn : n ≤ t.beside.length)
    (before : ∀ j one, j < n → t.beside[j]? = some one → one.1 + j < first)
    (last : ∀ one, t.beside[n]? = some one → first ≤ one.1 + n) : t.skipped first = n := by
  have inside := (t.skipped_le first).1
  rcases Nat.lt_trichotomy (t.skipped first) n with lt | same | gt
  · have here : t.beside[t.skipped first]? = some (t.beside[t.skipped first]) :=
      List.getElem?_eq_getElem (by omega)
    have := before _ _ lt here
    have := skipped_end here
    omega
  · exact same
  · have here : t.beside[n]? = some (t.beside[n]) := List.getElem?_eq_getElem (by omega)
    have := last _ here
    have := skipped_before gt here
    omega

/-- One place further, one beside is skipped where it stands there, and none else. -/
theorem skipped_succ {t : Timeline} (h : Items.InPlace t.items t.beside) (first : Nat) :
    t.skipped (first + 1) =
      if (t.beside[t.skipped first]?).any (fun one => one.1 + t.skipped first == first) then
        t.skipped first + 1
      else t.skipped first := by
  have inside := (t.skipped_le first).1
  have before : ∀ j one, j < t.skipped first → t.beside[j]? = some one → one.1 + j < first + 1 :=
    fun j one hj hone => Nat.lt_succ_of_lt (skipped_before hj hone)
  split
  · next here =>
    obtain ⟨one, hone, there⟩ := Option.any_eq_true _ _ |>.1 here
    rw [beq_iff_eq] at there
    obtain ⟨lt, e⟩ := List.getElem?_eq_some_iff.1 hone
    refine skipped_unique (by omega) (fun j other hj hother => ?_) fun other hother => ?_
    · rcases Nat.lt_succ_iff_lt_or_eq.1 hj with hj | rfl
      · exact before j other hj hother
      · rw [hone] at hother
        cases hother
        omega
    · obtain ⟨lt', e'⟩ := List.getElem?_eq_some_iff.1 hother
      have forward := List.pairwise_iff_getElem.1 h.forward _ _ lt lt' (by omega)
      rw [e, e'] at forward
      omega
  · next here =>
    refine skipped_unique inside before fun one hone => ?_
    have past := skipped_end hone
    have other : one.1 + t.skipped first ≠ first := by
      intro e
      exact here (by rw [hone, Option.any_some, beq_iff_eq, e])
    omega

/-- **From its place `k` on the iterator gives what it gives from the start but the first `k`.** -/
theorem drain_start {t : Timeline} (h : Items.InPlace t.items t.beside) (k : Nat) :
    t.drain (k - t.skipped k) (t.skipped k) = (t.drain 0 0).drop k := by
  induction k with
  | zero =>
    have none_ : t.skipped 0 = 0 := Nat.le_zero.1 (t.skipped_le 0).2
    rw [none_, List.drop_zero]
  | succ k ih =>
    have within := t.skipped_le k
    rw [← List.drop_drop, ← ih, skipped_succ h]
    cases hb : (t.beside[t.skipped k]?).any (fun one => one.1 + t.skipped k == k) with
    | true =>
      obtain ⟨one, hone, there⟩ := (Option.any_eq_true _ _).1 hb
      rw [beq_iff_eq] at there
      have place : k + 1 - (t.skipped k + 1) = k - t.skipped k := by omega
      rw [if_pos rfl, place, drain_beside hone (by omega), List.drop_succ_cons, List.drop_zero]
    | false =>
      have later : ∀ one ∈ t.beside[t.skipped k]?, k - t.skipped k < one.1 := by
        intro one hone
        have past := skipped_end hone
        rw [hone, Option.any_some, beq_eq_false_iff_ne] at hb
        omega
      rw [if_neg Bool.false_ne_true, Nat.sub_add_comm within.2]
      cases hi : t.items[k - t.skipped k]? with
      | some item => rw [drain_item later hi, List.drop_succ_cons, List.drop_zero]
      | none =>
        have past := List.getElem?_eq_none_iff.1 hi
        have nothing : t.beside[t.skipped k]? = none := by
          by_contra some_
          obtain ⟨one, hone⟩ := Option.ne_none_iff_exists'.1 some_
          have := later one hone
          have := h.within one (List.mem_of_getElem? hone)
          omega
        rw [drain_end nothing hi, drain_end nothing (List.getElem?_eq_none_iff.2 (by omega)),
          List.drop_nil]

theorem woven_items (at_ : Nat) (items : List Item) (beside : List (Nat × Item)) :
    ((woven at_ items beside).filter fun one => !one.2).map Prod.fst = items := by
  have none_ : ∀ l : List (Nat × Item),
      (l.map fun one => (one.2, true)).filter (fun one : Item × Bool => !one.2) = [] := by
    intro l
    rw [List.filter_eq_nil_iff]
    intro one hone
    obtain ⟨x, -, rfl⟩ := List.mem_map.1 hone
    exact Bool.false_ne_true
  induction items generalizing at_ with
  | nil => rw [woven, none_, List.map_nil]
  | cons item items ih =>
    rw [woven, List.filter_append, none_, List.nil_append, List.filter_cons_of_pos rfl,
      List.map_cons, ih]

theorem woven_besides {at_ : Nat} {items : List Item} {beside : List (Nat × Item)}
    (forward : beside.Pairwise fun one other => one.1 ≤ other.1)
    (left : ∀ one ∈ beside, at_ ≤ one.1) (within : ∀ one ∈ beside, one.1 ≤ at_ + items.length) :
    ((woven at_ items beside).filter fun one => one.2).map Prod.fst = beside.map Prod.snd := by
  induction items generalizing at_ beside with
  | nil =>
    have all : beside.filter (fun one => one.1 == at_) = beside := by
      refine List.filter_eq_self.2 fun one hone => beq_iff_eq.2 ?_
      exact Nat.le_antisymm (within one hone) (left one hone)
    rw [woven, all, List.filter_eq_self.2 fun one hone => ?_, List.map_map]
    · rfl
    · obtain ⟨x, -, rfl⟩ := List.mem_map.1 hone
      rfl
  | cons item items ih =>
    induction beside with
    | nil =>
      rw [woven_item fun one hone => absurd hone List.not_mem_nil,
        List.filter_cons_of_neg Bool.false_ne_true]
      exact ih .nil (fun one hone => absurd hone List.not_mem_nil)
        fun one hone => absurd hone List.not_mem_nil
    | cons one beside ihb =>
      obtain ⟨p, b⟩ := one
      obtain ⟨first, rest⟩ := List.pairwise_cons.1 forward
      rcases Nat.eq_or_lt_of_le (left _ List.mem_cons_self) with here | later
      · change at_ = p at here
        subst here
        rw [woven_beside, List.filter_cons_of_pos rfl, List.map_cons, List.map_cons,
          ihb rest (fun x hx => left x (List.mem_cons_of_mem _ hx))
            fun x hx => within x (List.mem_cons_of_mem _ hx)]
      · have past : ∀ x ∈ (p, b) :: beside, at_ < x.1 := by
          intro x hx
          rcases List.mem_cons.1 hx with rfl | hx
          · exact later
          · exact Nat.lt_of_lt_of_le later (first x hx)
        rw [woven_item past, List.filter_cons_of_neg Bool.false_ne_true]
        refine ih forward past fun x hx => ?_
        have := within x hx
        rw [List.length_cons] at this
        omega

/-- **A history page starts anywhere in one and the same order.** Whatever was pushed, those beside
    are laid out in place; and of every record whose are, the timeline from its start is the items
    and those beside woven, each list whole and in its own order, and the timeline from any place
    `k` is that without its first `k`. -/
theorem timeline_from :
    (∀ pushes calls laid, (Items.pushed pushes).timeline calls = .ok laid →
      Items.InPlace laid.items laid.beside) ∧
    ∀ t : Timeline, Items.InPlace t.items t.beside →
      t.from_ 0 = woven 0 t.items t.beside ∧
      ((t.from_ 0).filter fun one => !one.2).map Prod.fst = t.items ∧
      ((t.from_ 0).filter fun one => one.2).map Prod.fst = t.beside.map Prod.snd ∧
      ∀ k, t.from_ k = (t.from_ 0).drop k := by
  refine ⟨fun pushes calls laid h => Items.timeline_placed h, fun t h => ?_⟩
  have start : ∀ k, t.from_ k = t.drain (k - t.skipped k) (t.skipped k) := by
    intro k
    rw [from_, Nat.min_eq_left (t.skipped_le k).2]
  have none_ : t.skipped 0 = 0 := Nat.le_zero.1 (t.skipped_le 0).2
  have whole : t.from_ 0 = woven 0 t.items t.beside := by
    rw [start, none_]
    exact drain_woven h 0 0 (Nat.zero_le _) fun one _ => Nat.zero_le one.1
  refine ⟨whole, ?_, ?_, fun k => ?_⟩
  · rw [whole, woven_items]
  · rw [whole]
    exact woven_besides h.forward (fun one _ => Nat.zero_le one.1)
      fun one hone => by
        rw [Nat.zero_add]
        exact h.within one hone
  · rw [start k, drain_start h, start 0, none_]

end Timeline

end Harness
end ConsensFlow
