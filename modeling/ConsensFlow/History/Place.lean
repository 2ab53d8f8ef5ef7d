/-
  File:      ConsensFlow/History/Place.lean
  Subject:   WHERE A READ STANDS: what it goes through, in the order it goes, and what is left of it from
             a place.

  * `Atom` -- what a read goes through: an item, or the end of a conversation; `Asked.atoms`, in the
    order the read goes;
  * `Asked.left`, `owed`, `weight` -- what is left from a place, the items wanted of it, and how many
    steps it is;
  * **`At`** -- the INVARIANT of a read: it shows what was owed up to the place it is at; `At.pass`,
    `At.take`, `At.inside`, `At.ends`, its steps.
-/
import ConsensFlow.History.Parts

namespace ConsensFlow
namespace History

open Lib Lib.Lines Lib.Search

/-! ## 1. What a read goes through -/

/-- An item, or the end of a conversation. -/
inductive Atom where
  | item (i : Copied)
  | ends (conversation : Nat)

namespace Asked

variable (a : Asked)

/-- Where an atom stands: its conversation, and its row. -/
def spot : Atom → Int × Int
  | .item i => (i.conversation, i.row)
  | .ends c => (c, a.edge)

/-- The order the read goes. -/
def later (p q : Int × Int) : Bool := a.ahead p.1 q.1 || (p.1 == q.1 && a.ahead p.2 q.2)

def atomsOf (c : Conversation) : List Atom := (a.items c.id).map .item ++ [.ends c.id]

def atoms : List Atom := a.conversations.flatMap a.atomsOf

/-- What is left from a place: all of it, or what is past the place, with the item it stopped inside. -/
def left : Option HistoryKey → List Atom
  | none => a.atoms
  | some key => a.atoms.filter fun atom => a.later (key.conversation, key.row) (a.spot atom) ||
      (decide (0 < key.part) && decide ((key.conversation, key.row) = a.spot atom))

/-- The items wanted of what is left, the first from part `part` of it. -/
def owed : List Atom → Nat → List Copied
  | [], _ => []
  | .ends _ :: rest, _ => owed rest 0
  | .item i :: rest, part => if a.wants part i then i :: owed rest 0 else owed rest 0

end Asked

/-- How many steps what is left is, the first item from part `part` of it. -/
def weight : List Atom → Nat → Nat
  | [], _ => 0
  | .ends _ :: rest, _ => 1 + weight rest 0
  | .item i :: rest, part => 1 + (i.parts.length - part) + weight rest 0

theorem weight_item (i : Copied) (rest : List Atom) (part : Nat) :
    weight (.item i :: rest) part = 1 + (i.parts.length - part) + weight rest 0 := rfl

theorem weight_ends (c : Nat) (rest : List Atom) (part : Nat) :
    weight (.ends c :: rest) part = 1 + weight rest 0 := rfl

namespace Asked

variable {a : Asked}

theorem ahead_iff {p q : Int} : a.ahead p q = true ↔ if a.newestFirst then q < p else p < q := by
  unfold ahead
  cases a.newestFirst <;> exact decide_eq_true_iff

theorem ahead_one_way {p q : Int} (h : a.ahead p q = true) : a.ahead q p = false := by
  cases h' : a.ahead q p with
  | false => rfl
  | true =>
    rw [ahead_iff] at h h'
    by_cases newest : a.newestFirst = true
    · rw [if_pos newest] at h h'
      omega
    · rw [if_neg newest] at h h'
      omega

theorem ahead_trans {p q s : Int} (h : a.ahead p q = true) (h' : a.ahead q s = true) :
    a.ahead p s = true := by
  rw [ahead_iff] at h h' ⊢
  by_cases newest : a.newestFirst = true
  · rw [if_pos newest] at h h' ⊢
    omega
  · rw [if_neg newest] at h h' ⊢
    omega

theorem ahead_self (p : Int) : a.ahead p p = false := by
  cases h : a.ahead p p with
  | false => rfl
  | true => exact absurd (h.symm.trans (ahead_one_way h)) (by decide)

theorem later_one_way (p q : Int × Int) (h : a.later p q = true) : a.later q p = false := by
  unfold later at h ⊢
  rw [Bool.or_eq_true, Bool.and_eq_true, beq_iff_eq] at h
  rw [Bool.or_eq_false_iff, Bool.and_eq_false_iff]
  rcases h with h | ⟨h, h'⟩
  · refine ⟨ahead_one_way h, .inl (beq_eq_false_iff_ne.2 fun same => ?_)⟩
    rw [same, ahead_self] at h
    cases h
  · rw [h]
    exact ⟨ahead_self _, .inr (ahead_one_way h')⟩

/-- What is in the order its keys rise in is in the order a read goes, the way it goes. -/
theorem directed_sorted {α : Type} {key : α → Nat} {as : List α} (rising : as.Pairwise (key · < key ·)) :
    (a.directed as).Pairwise fun x y => a.ahead (key x) (key y) = true := by
  unfold directed
  split
  · rename_i newest
    refine List.pairwise_reverse.2 (rising.imp fun {x y} h => ahead_iff.2 ?_)
    rw [if_pos newest]
    omega
  · rename_i oldest
    refine rising.imp fun {x y} h => ahead_iff.2 ?_
    rw [if_neg oldest]
    omega

theorem mem_directed {α : Type} {as : List α} {x : α} : x ∈ a.directed as ↔ x ∈ as := by
  unfold directed
  split
  · exact List.mem_reverse
  · rfl

theorem items_spec {c : Nat} {i : Copied} (h : i ∈ a.items c) :
    i.conversation = c ∧ 0 < i.row ∧ (i.row : Int) < maxRow := by
  obtain ⟨hi, hc⟩ := List.mem_filter.1 h
  have hi := mem_directed.1 hi
  rw [Bool.and_eq_true, beq_iff_eq] at hc
  have row : i.row < a.copy.items.next := a.copy.items.below i hi
  have := a.copy.itemsLeft
  exact ⟨hc.1, a.copy.first i hi, by omega⟩

theorem items_sorted (c : Nat) :
    (a.items c).Pairwise fun x y => a.ahead x.row y.row = true :=
  (directed_sorted (List.pairwise_map.1 a.copy.items.rising)).sublist List.filter_sublist

theorem conversations_sorted :
    a.conversations.Pairwise fun x y => a.ahead x.id y.id = true :=
  (directed_sorted (List.pairwise_map.1 a.copy.ledger.conversations.rising)).sublist
    List.filter_sublist

theorem conversations_spec {c : Conversation} (h : c ∈ a.conversations) : (c.id : Int) < maxRow := by
  have hc := mem_directed.1 (List.mem_filter.1 h).1
  have id : c.id < a.copy.ledger.conversations.next := a.copy.ledger.conversations.below c hc
  have := a.copy.conversationsLeft
  omega

/-- Every row comes before the edge. -/
theorem ahead_edge {c : Nat} {i : Copied} (h : i ∈ a.items c) : a.ahead i.row a.edge = true := by
  obtain ⟨-, first, last⟩ := items_spec h
  rw [ahead_iff]
  unfold edge
  split <;> omega

theorem spot_atomsOf {c : Conversation} {x : Atom} (h : x ∈ a.atomsOf c) : (a.spot x).1 = c.id := by
  rcases List.mem_append.1 h with h | h
  · obtain ⟨i, hi, rfl⟩ := List.mem_map.1 h
    exact congrArg Nat.cast (items_spec hi).1
  · cases List.mem_singleton.1 h
    rfl

theorem atoms_sorted : a.atoms.Pairwise fun x y => a.later (a.spot x) (a.spot y) = true := by
  refine List.pairwise_flatMap.2 ⟨fun c _ => ?_, conversations_sorted.imp fun {c d} h x hx y hy => ?_⟩
  · refine List.pairwise_append.2 ⟨List.pairwise_map.2 ?_, List.pairwise_singleton _ _, ?_⟩
    · refine (items_sorted c.id).imp_of_mem fun {x y} hx hy h => ?_
      have same : (x.conversation : Int) = y.conversation :=
        congrArg Nat.cast ((items_spec hx).1.trans (items_spec hy).1.symm)
      exact Bool.or_eq_true_iff.2 (.inr (Bool.and_eq_true_iff.2 ⟨beq_iff_eq.2 same, h⟩))
    · intro x hx y hy
      obtain ⟨i, hi, rfl⟩ := List.mem_map.1 hx
      cases List.mem_singleton.1 hy
      have same : (i.conversation : Int) = c.id := congrArg Nat.cast (items_spec hi).1
      exact Bool.or_eq_true_iff.2 (.inr (Bool.and_eq_true_iff.2 ⟨beq_iff_eq.2 same, ahead_edge hi⟩))
  · refine Bool.or_eq_true_iff.2 (.inl ?_)
    rw [spot_atomsOf hx, spot_atomsOf hy]
    exact h

/-- What is left past an atom, and from inside an item. -/
theorem left_of {before rest : List Atom} {x : Atom} (h : a.atoms = before ++ x :: rest) (part : Nat) :
    a.left (some ⟨(a.spot x).1, (a.spot x).2, part⟩) = if 0 < part then x :: rest else rest := by
  have sorted := atoms_sorted (a := a)
  rw [h] at sorted
  obtain ⟨past, within⟩ := Paging.filter_later later_one_way a.spot sorted
  unfold left
  dsimp only
  rw [h]
  by_cases some_ : 0 < part
  · rw [if_pos some_]
    refine Eq.trans (List.filter_congr fun y _ => ?_) within
    rw [decide_eq_true some_, Bool.true_and]
  · rw [if_neg some_]
    refine Eq.trans (List.filter_congr fun y _ => ?_) past
    rw [decide_eq_false some_, Bool.false_and, Bool.or_false]

theorem item_of_atoms {i : Copied} (h : .item i ∈ a.atoms) : i ∈ a.items i.conversation := by
  obtain ⟨c, -, hi⟩ := List.mem_flatMap.1 h
  rcases List.mem_append.1 hi with hi | hi
  · obtain ⟨j, hj, e⟩ := List.mem_map.1 hi
    cases e
    rw [(items_spec hj).1]
    exact hj
  · cases List.mem_singleton.1 hi

end Asked

/-! ## 2. Where a read stands -/

/-- The place `resume` leaves `rest`, from part `part` of its first item. -/
structure Place (a : Asked) (resume : Option HistoryKey) (rest : List Atom) (part : Nat) : Prop where
  left : a.left resume = rest
  inPart : (resume.map HistoryKey.part).getD 0 = part
  inside : 0 < part → ∃ i more, rest = .item i :: more ∧ part ≤ i.parts.length ∧
    resume = some ⟨i.conversation, i.row, part⟩
  edge : ∀ key, resume = some key → key.row = a.edge ∨ a.ahead key.row a.edge = true

/-- A read that owes `owes`, which is `most` steps, has `rest` left, and showed what it owed before. -/
structure At (a : Asked) (owes : List Copied) (most : Nat) (r : Reading) (rest : List Atom)
    (part : Nat) : Prop where
  split : ∃ before, a.atoms = before ++ rest
  place : Place a r.resume rest part
  shown : ∃ taken, owes = taken ++ a.owed rest part ∧ List.Forall₂ Shows taken r.entries
  within : weight rest part ≤ most
  moved : r.moved a = true → weight rest part < most
  begun : r.resume = none → r.entries = [] ∧ a.start = none

/-- A read that stopped short: it moved. -/
structure Stopped (a : Asked) (owes : List Copied) (most : Nat) (r : Reading) : Prop where
  short : r.full = true ∨ r.bounded = true
  moved : r.moved a = true
  there : ∃ rest part, At a owes most r rest part

/-- What becomes of an item: the read is done with it and goes on, or stopped. -/
inductive Dealt (a : Asked) (owes : List Copied) (most : Nat) (rest : List Atom) :
    Reading × Bool → Prop
  | done {r : Reading} (there : At a owes most r rest 0) (full : r.full = false)
      (bounded : r.bounded = false) : Dealt a owes most rest (r, true)
  | stopped {r : Reading} (there : Stopped a owes most r) : Dealt a owes most rest (r, false)

variable {a : Asked} {owes : List Copied} {most : Nat} {r r' : Reading} {rest : List Atom} {part : Nat}
  {i : Copied} {met : Met}

namespace At

/-- What a read went through, and why it stopped, is no part of where it is. -/
theorem same (h : At a owes most r rest part) (entries : r'.entries = r.entries)
    (resume : r'.resume = r.resume) : At a owes most r' rest part := by
  obtain ⟨split, place, shown, most_, moved, begun⟩ := h
  refine ⟨split, resume ▸ place, entries ▸ shown, most_, fun m => moved ?_, fun none_ => ?_⟩
  · rw [Reading.moved, ← entries, ← resume]
    exact m
  · rw [resume] at none_
    rw [entries]
    exact begun none_

theorem item_mem (h : At a owes most r (.item i :: rest) part) : i ∈ a.items i.conversation := by
  obtain ⟨before, whole⟩ := h.split
  refine Asked.item_of_atoms ?_
  rw [whole]
  exact List.mem_append_right _ List.mem_cons_self

/-- A read goes on past the first atom left. -/
theorem past {x : Atom} (h : At a owes most r (x :: rest) part)
    (resume : r'.resume = some ⟨(a.spot x).1, (a.spot x).2, 0⟩)
    (edge : (a.spot x).2 = a.edge ∨ a.ahead (a.spot x).2 a.edge = true)
    (shown : ∃ taken, owes = taken ++ a.owed rest 0 ∧ List.Forall₂ Shows taken r'.entries) :
    At a owes most r' rest 0 := by
  obtain ⟨before, whole⟩ := h.split
  have less : weight rest 0 < weight (x :: rest) part := by
    cases x with
    | item i => rw [weight_item]; omega
    | ends c => rw [weight_ends]; omega
  refine ⟨⟨before ++ [x], by rw [whole, List.append_assoc]; rfl⟩, ⟨?_, ?_, fun h => absurd h (Nat.lt_irrefl 0),
    fun key hk => ?_⟩, shown, ?_, fun _ => Nat.lt_of_lt_of_le less h.within, fun none_ => ?_⟩
  · rw [resume, Asked.left_of whole, if_neg (Nat.lt_irrefl 0)]
  · rw [resume]
    rfl
  · rw [resume] at hk
    cases hk
    exact edge
  · exact Nat.le_of_lt (Nat.lt_of_lt_of_le less h.within)
  · rw [resume] at none_
    cases none_

/-- An item passed. -/
theorem pass (h : At a owes most r (.item i :: rest) part) (wants : a.wants part i = false)
    (resume : r'.resume = some ⟨i.conversation, i.row, 0⟩) (entries : r'.entries = r.entries) :
    At a owes most r' rest 0 := by
  refine h.past resume (.inr (Asked.ahead_edge h.item_mem)) ?_
  obtain ⟨taken, owed, shown⟩ := h.shown
  rw [Asked.owed, if_neg (by rw [wants]; decide)] at owed
  exact ⟨taken, owed, entries ▸ shown⟩

/-- An item taken. -/
theorem take (h : At a owes most r (.item i :: rest) part) (wants : a.wants part i = true)
    {row : HistoryRow} (shows : Shows i row) (resume : r'.resume = some ⟨i.conversation, i.row, 0⟩)
    (entries : r'.entries = r.entries ++ [row]) : At a owes most r' rest 0 := by
  refine h.past resume (.inr (Asked.ahead_edge h.item_mem)) ?_
  obtain ⟨taken, owed, shown⟩ := h.shown
  rw [Asked.owed, if_pos wants] at owed
  refine ⟨taken ++ [i], by rw [owed, List.append_assoc]; rfl, ?_⟩
  rw [entries]
  exact List.rel_append shown (.cons shows .nil)

/-- A search further inside an item. -/
theorem inside (h : At a owes most r (.item i :: rest) part) (more : part < i.parts.length)
    (wants : a.wants part i = a.wants (part + 1) i)
    (resume : r'.resume = some ⟨i.conversation, i.row, part + 1⟩) (entries : r'.entries = r.entries) :
    At a owes most r' (.item i :: rest) (part + 1) := by
  obtain ⟨before, whole⟩ := h.split
  have less : weight (.item i :: rest) (part + 1) < weight (.item i :: rest) part := by
    rw [weight_item, weight_item]
    omega
  refine ⟨h.split, ⟨?_, ?_, fun _ => ⟨i, rest, rfl, more, resume⟩, fun key hk => ?_⟩, ?_, ?_,
    fun _ => Nat.lt_of_lt_of_le less h.within, fun none_ => ?_⟩
  · have left := Asked.left_of whole (part + 1)
    rw [if_pos (Nat.succ_pos part)] at left
    rw [resume]
    exact left
  · rw [resume]
    rfl
  · rw [resume] at hk
    cases hk
    exact .inr (Asked.ahead_edge h.item_mem)
  · obtain ⟨taken, owed, shown⟩ := h.shown
    rw [Asked.owed, wants] at owed
    exact ⟨taken, owed, entries ▸ shown⟩
  · exact Nat.le_of_lt (Nat.lt_of_lt_of_le less h.within)
  · rw [resume] at none_
    cases none_

/-- A conversation's end passed. -/
theorem ends {c : Nat} (h : At a owes most r (.ends c :: rest) part)
    (resume : r'.resume = some ⟨c, a.edge, 0⟩) (entries : r'.entries = r.entries) :
    At a owes most r' rest 0 := by
  refine h.past resume (.inl rfl) ?_
  obtain ⟨taken, owed, shown⟩ := h.shown
  exact ⟨taken, owed, entries ▸ shown⟩

end At

end History
end ConsensFlow
