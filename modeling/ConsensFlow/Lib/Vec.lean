/-
  File:      ConsensFlow/Lib/Vec.lean
  Subject:   VECTORS THAT PANIC: a growable array's operations as a program with checked indexing has
             them, each answering none where it would panic.

  * `set`, `remove`, `insert`, `drain`, `fill`, `sub` -- with the range each one checks;
  * `times`, `each` -- a step taken some times, and on each element;
  * `Sized` -- a vector of one length whose elements all keep a property, and the rule of each
    operation for it: within its range it does not panic, and keeps the property.
-/
import Mathlib

namespace Lib.Vec

variable {α : Type}

/-! ## 1. Operations -/

/-- `v[i] = x`. -/
def set (i : Nat) (x : α) (v : List α) : Option (List α) :=
  if i < v.length then some (v.set i x) else none

/-- `Vec::remove`. -/
def remove (i : Nat) (v : List α) : Option (List α) :=
  if i < v.length then some (v.eraseIdx i) else none

/-- `Vec::insert`. -/
def insert (i : Nat) (x : α) (v : List α) : Option (List α) :=
  if i ≤ v.length then some (v.insertIdx i x) else none

/-- `Vec::drain(from..to)`. -/
def drain (first last : Nat) (v : List α) : Option (List α) :=
  if first ≤ last ∧ last ≤ v.length then some (v.take first ++ v.drop last) else none

/-- `v[from..to].fill(x)`. -/
def fill (first last : Nat) (x : α) (v : List α) : Option (List α) :=
  if first ≤ last ∧ last ≤ v.length then
    some (v.take first ++ (List.replicate (last - first) x ++ v.drop last))
  else none

/-- `Vec::resize`. -/
def resize (n : Nat) (x : α) (v : List α) : List α := v.take n ++ List.replicate (n - v.length) x

/-- An unsigned subtraction. -/
def sub (a b : Nat) : Option Nat := if b ≤ a then some (a - b) else none

/-- A step taken `n` times. -/
def times (step : α → Option α) : Nat → α → Option α
  | 0, a => some a
  | n + 1, a => (step a).bind (times step n)

/-- A step taken on each element. -/
def each (step : α → Option α) : List α → Option (List α)
  | [] => some []
  | a :: as => (step a).bind fun b => (each step as).map (b :: ·)

/-! ## 2. Within range -/

/-- A vector of `n` elements that all keep `P`. -/
structure Sized (n : Nat) (P : α → Prop) (v : List α) : Prop where
  length : v.length = n
  all : ∀ x ∈ v, P x

variable {n i j : Nat} {P : α → Prop} {x : α} {v : List α}

theorem Sized.replicate (n : Nat) (h : P x) : Sized n P (List.replicate n x) where
  length := List.length_replicate
  all _ there := by rw [List.eq_of_mem_replicate there]; exact h

theorem Sized.get (h : Sized n P v) (hi : i < n) : ∃ y, v[i]? = some y ∧ P y := by
  have range : i < v.length := by rw [h.length]; exact hi
  exact ⟨v[i], List.getElem?_eq_getElem range, h.all _ (List.getElem_mem range)⟩

theorem Sized.set (h : Sized n P v) (hi : i < n) (hx : P x) :
    ∃ w, set i x v = some w ∧ Sized n P w := by
  refine ⟨v.set i x, if_pos (by rw [h.length]; exact hi), ?_, fun y there => ?_⟩
  · rw [List.length_set, h.length]
  · rcases List.mem_or_eq_of_mem_set there with there | rfl
    · exact h.all y there
    · exact hx

theorem Sized.remove (h : Sized (n + 1) P v) (hi : i < n + 1) :
    ∃ w, remove i v = some w ∧ Sized n P w := by
  have range : i < v.length := by rw [h.length]; exact hi
  refine ⟨v.eraseIdx i, if_pos range, ?_, fun y there => h.all y (List.mem_of_mem_eraseIdx there)⟩
  rw [List.length_eraseIdx_of_lt range, h.length]
  rfl

theorem Sized.insert (h : Sized n P v) (hi : i ≤ n) (hx : P x) :
    ∃ w, insert i x v = some w ∧ Sized (n + 1) P w := by
  have range : i ≤ v.length := by rw [h.length]; exact hi
  refine ⟨v.insertIdx i x, if_pos range, ?_, fun y there => ?_⟩
  · rw [List.length_insertIdx_of_le_length range, h.length]
  · rcases List.eq_or_mem_of_mem_insertIdx there with rfl | there
    · exact hx
    · exact h.all y there

theorem Sized.drain (h : Sized n P v) (hij : i ≤ j) (hj : j ≤ n) :
    ∃ w, drain i j v = some w ∧ Sized (n - (j - i)) P w := by
  refine ⟨v.take i ++ v.drop j, if_pos ⟨hij, by rw [h.length]; exact hj⟩, ?_, fun y there => ?_⟩
  · rw [List.length_append, List.length_take, List.length_drop, h.length]
    omega
  · rcases List.mem_append.mp there with there | there
    · exact h.all y (List.mem_of_mem_take there)
    · exact h.all y (List.mem_of_mem_drop there)

theorem Sized.fill (h : Sized n P v) (hij : i ≤ j) (hj : j ≤ n) (hx : P x) :
    ∃ w, fill i j x v = some w ∧ Sized n P w := by
  refine ⟨_, if_pos ⟨hij, by rw [h.length]; exact hj⟩, ?_, fun y there => ?_⟩
  · simp only [List.length_append, List.length_take, List.length_drop, List.length_replicate,
      h.length]
    omega
  · rcases List.mem_append.mp there with there | there
    · exact h.all y (List.mem_of_mem_take there)
    · rcases List.mem_append.mp there with there | there
      · rw [List.eq_of_mem_replicate there]
        exact hx
      · exact h.all y (List.mem_of_mem_drop there)

theorem Sized.resize (all : ∀ y ∈ v, P y) (hx : P x) : Sized n P (resize n x v) := by
  refine ⟨?_, fun y there => ?_⟩
  · rw [Vec.resize, List.length_append, List.length_take, List.length_replicate]
    omega
  · rcases List.mem_append.mp there with there | there
    · exact all y (List.mem_of_mem_take there)
    · rw [List.eq_of_mem_replicate there]
      exact hx

theorem sub_eq (h : j ≤ i) : sub i j = some (i - j) := if_pos h

/-- A step that keeps `P` without a panic keeps it however often it is taken. -/
theorem times_keeps {step : α → Option α} (h : ∀ a, P a → ∃ b, step a = some b ∧ P b) (n : Nat)
    {a : α} (ha : P a) : ∃ b, times step n a = some b ∧ P b := by
  induction n generalizing a with
  | zero => exact ⟨a, rfl, ha⟩
  | succ n ih =>
    obtain ⟨b, hb, pb⟩ := h a ha
    obtain ⟨c, hc, pc⟩ := ih pb
    exact ⟨c, by rw [times, hb]; exact hc, pc⟩

theorem Sized.each {step : α → Option α} (h : Sized n P v)
    (keeps : ∀ a, P a → ∃ b, step a = some b ∧ P b) : ∃ w, each step v = some w ∧ Sized n P w := by
  obtain ⟨length, all⟩ := h
  induction v generalizing n with
  | nil => exact ⟨[], rfl, length, all⟩
  | cons a as ih =>
    obtain ⟨b, hb, pb⟩ := keeps a (all a List.mem_cons_self)
    obtain ⟨w, hw, sized⟩ := ih rfl fun x there => all x (List.mem_cons_of_mem a there)
    refine ⟨b :: w, by rw [Vec.each, hb, Option.bind_some, hw]; rfl, ?_, ?_⟩
    · rw [← length, List.length_cons, List.length_cons, sized.length]
    · exact List.forall_mem_cons.mpr ⟨pb, sized.all⟩

end Lib.Vec
