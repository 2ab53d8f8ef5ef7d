/-
  File:      ConsensFlow/Lib/Climb.lean
  Subject:   A BOUNDED WALK UP A FINITE FOREST: at each node, an answer or the node above.

  * `climb` -- the walk, of so many nodes at most; no answer in time is `false`;
  * `Climbs` -- the walk that has its answer, however long;
  * **`climb_iff`** -- where the nodes are of a list, its length is bound enough: a walk that ends meets
    no node twice.
-/
import Mathlib

namespace Lib.Climb

variable {α : Type} {look : α → Bool ⊕ α} {a b : α} {answer : Bool}

/-- The walk up from `a`, looking at `n` nodes at most. -/
def climb (look : α → Bool ⊕ α) : Nat → α → Bool
  | 0, _ => false
  | n + 1, a =>
    match look a with
    | .inl answer => answer
    | .inr b => climb look n b

/-- The walk up from `a` that ends with an answer. -/
inductive Climbs (look : α → Bool ⊕ α) (answer : Bool) : α → Prop where
  | ends {a : α} : look a = .inl answer → Climbs look answer a
  | up {a b : α} : look a = .inr b → Climbs look answer b → Climbs look answer a

/-- The walk up from `a` looks at `n` nodes before the one that answers. -/
def Ends (look : α → Bool ⊕ α) (answer : Bool) : Nat → α → Prop
  | 0, a => look a = .inl answer
  | n + 1, a => ∃ b, look a = .inr b ∧ Ends look answer n b

theorem climbs_iff : Climbs look answer a ↔ ∃ n, Ends look answer n a := by
  constructor
  · intro h
    induction h with
    | ends here => exact ⟨0, here⟩
    | up goes _ ih =>
      obtain ⟨n, ends⟩ := ih
      exact ⟨n + 1, _, goes, ends⟩
  · rintro ⟨n, ends⟩
    induction n generalizing a with
    | zero => exact .ends ends
    | succ n ih =>
      obtain ⟨b, goes, ends⟩ := ends
      exact .up goes (ih ends)

theorem Ends.unique {m n : Nat} (h : Ends look answer m a) (h' : Ends look answer n a) : m = n := by
  induction m generalizing n a with
  | zero =>
    cases n with
    | zero => rfl
    | succ n =>
      obtain ⟨b, goes, -⟩ := h'
      cases goes.symm.trans h
  | succ m ih =>
    obtain ⟨b, goes, ends⟩ := h
    cases n with
    | zero => cases goes.symm.trans h'
    | succ n =>
      obtain ⟨b', goes', ends'⟩ := h'
      cases goes.symm.trans goes'
      rw [ih ends ends']

/-- **A walk that ends meets no node twice.** -/
theorem Ends.short {nodes : List α} (closed : ∀ a ∈ nodes, ∀ b, look a = .inr b → b ∈ nodes)
    {n : Nat} (h : Ends look answer n a) (there : a ∈ nodes) : n < nodes.length := by
  have met : ∃ path : List α, path.length = n + 1 ∧ path.Nodup ∧
      ∀ x ∈ path, x ∈ nodes ∧ ∃ m ≤ n, Ends look answer m x := by
    induction n generalizing a with
    | zero =>
      refine ⟨[a], rfl, List.nodup_singleton a, fun x one => ?_⟩
      rw [List.mem_singleton.1 one]
      exact ⟨there, 0, Nat.le_refl 0, h⟩
    | succ n ih =>
      obtain ⟨b, goes, ends⟩ := h
      obtain ⟨path, length, nodup, all⟩ := ih ends (closed a there b goes)
      have new : a ∉ path := by
        intro again
        obtain ⟨-, m, few, ends'⟩ := all a again
        have same : n + 1 = m := Ends.unique ⟨b, goes, ends⟩ ends'
        omega
      refine ⟨a :: path, by rw [List.length_cons, length], List.nodup_cons.2 ⟨new, nodup⟩,
        fun x one => ?_⟩
      rcases List.mem_cons.1 one with rfl | one
      · exact ⟨there, n + 1, Nat.le_refl _, b, goes, ends⟩
      · obtain ⟨x_, m, few, ends'⟩ := all x one
        exact ⟨x_, m, Nat.le_succ_of_le few, ends'⟩
  obtain ⟨path, length, nodup, all⟩ := met
  have few := (List.subperm_of_subset nodup fun x one => (all x one).1).length_le
  omega

theorem climb_ends (n : Nat) : climb look n a = true ↔ ∃ m < n, Ends look true m a := by
  induction n generalizing a with
  | zero =>
    refine iff_of_false Bool.false_ne_true ?_
    rintro ⟨m, less, -⟩
    exact Nat.not_lt_zero m less
  | succ n ih =>
    rw [climb]
    cases h : look a with
    | inl answer =>
      constructor
      · intro yes
        exact ⟨0, Nat.succ_pos n, h.trans (congrArg Sum.inl yes)⟩
      · rintro ⟨m, -, ends⟩
        cases m with
        | zero =>
          cases h.symm.trans ends
          rfl
        | succ m =>
          obtain ⟨b, goes, -⟩ := ends
          cases goes.symm.trans h
    | inr b =>
      show climb look n b = true ↔ _
      rw [ih]
      constructor
      · rintro ⟨m, less, ends⟩
        exact ⟨m + 1, Nat.succ_lt_succ less, b, h, ends⟩
      · rintro ⟨m, less, ends⟩
        cases m with
        | zero => cases h.symm.trans ends
        | succ m =>
          obtain ⟨b', goes, ends⟩ := ends
          cases h.symm.trans goes
          exact ⟨m, Nat.lt_of_succ_lt_succ less, ends⟩

/-- **A walk of as many nodes as there are finds the answer, if any does.** -/
theorem climb_iff {nodes : List α} (closed : ∀ a ∈ nodes, ∀ b, look a = .inr b → b ∈ nodes)
    (there : a ∈ nodes) {n : Nat} (enough : nodes.length ≤ n) :
    climb look n a = true ↔ Climbs look true a := by
  rw [climb_ends, climbs_iff]
  constructor
  · rintro ⟨m, -, ends⟩
    exact ⟨m, ends⟩
  · rintro ⟨m, ends⟩
    exact ⟨m, Nat.lt_of_lt_of_le (ends.short closed there) enough, ends⟩

end Lib.Climb
