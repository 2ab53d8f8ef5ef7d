/-
  File:      ConsensFlow/Lib/Table.lean
  Subject:   A TABLE WITH AN AUTOINCREMENT KEY: its rows in the order they were inserted, which
             is the order of their keys.

  * `Keyed ρ` -- a row type with a key column;
  * `Table ρ` -- the rows with the next key, and the two facts every statement keeps: the keys
    rise along the rows, and every key is below the next. No two rows share a key;
  * `insert`, `alter`, `alterAt`, `keep` -- `INSERT`, `UPDATE … WHERE`, `UPDATE … WHERE id =`,
    `DELETE … WHERE NOT`. `alter` cannot change a key;
  * `get?` -- the row of a key, and what each statement does to it.
-/
import Mathlib

namespace Lib

/-- A row with a key column. -/
class Keyed (ρ : Type) where
  key : ρ → Nat
  rekey : Nat → ρ → ρ
  key_rekey : ∀ n r, key (rekey n r) = n
  rekey_key : ∀ r, rekey (key r) r = r

attribute [simp] Keyed.key_rekey Keyed.rekey_key

open Keyed

/-- Rows in the order of their keys, every key below the next one to give. -/
structure Table (ρ : Type) [Keyed ρ] where
  rows : List ρ
  next : Nat
  rising : (rows.map key).Pairwise (· < ·)
  below : ∀ r ∈ rows, key r < next

namespace Table

variable {ρ : Type} [Keyed ρ]

/-! ## 1. Statements -/

/-- No rows; the first key is 1. -/
def empty : Table ρ := ⟨[], 1, List.Pairwise.nil, by simp⟩

/-- Inserts a row under the next key. -/
def insert (t : Table ρ) (r : ρ) : Table ρ where
  rows := t.rows ++ [rekey t.next r]
  next := t.next + 1
  rising := by
    rw [List.map_append, List.pairwise_append]
    refine ⟨t.rising, List.pairwise_singleton _ _, fun a ha b hb => ?_⟩
    obtain ⟨x, hx, rfl⟩ := List.mem_map.mp ha
    rw [List.map_singleton, List.mem_singleton, key_rekey] at hb
    exact hb ▸ t.below x hx
  below := by
    intro x hx
    rcases List.mem_append.mp hx with hx | hx
    · exact Nat.lt_succ_of_lt (t.below x hx)
    · rw [List.mem_singleton.mp hx, key_rekey]
      exact Nat.lt_succ_self _

/-- A row as `alter` leaves it: changed where `p` holds, under the key it has. -/
def altered (p : ρ → Bool) (f : ρ → ρ) (r : ρ) : ρ := if p r then rekey (key r) (f r) else r

@[simp] theorem key_altered (p : ρ → Bool) (f : ρ → ρ) (r : ρ) : key (altered p f r) = key r := by
  unfold altered
  split <;> simp

/-- Changes every row that meets `p`. -/
def alter (t : Table ρ) (p : ρ → Bool) (f : ρ → ρ) : Table ρ where
  rows := t.rows.map (altered p f)
  next := t.next
  rising := by
    have e : (t.rows.map (altered p f)).map key = t.rows.map key := by
      rw [List.map_map]
      exact List.map_congr_left fun r _ => key_altered p f r
    rw [e]
    exact t.rising
  below := by
    intro x hx
    obtain ⟨r, hr, rfl⟩ := List.mem_map.mp hx
    rw [key_altered]
    exact t.below r hr

/-- Changes the row of a key. -/
def alterAt (t : Table ρ) (n : Nat) (f : ρ → ρ) : Table ρ := t.alter (fun r => key r == n) f

/-- Keeps the rows that meet `p`; the keys given go on from where they were. -/
def keep (t : Table ρ) (p : ρ → Bool) : Table ρ where
  rows := t.rows.filter p
  next := t.next
  rising := t.rising.sublist ((List.filter_sublist).map key)
  below := fun r hr => t.below r (List.mem_filter.mp hr).1

/-- The row of a key. -/
def get? (t : Table ρ) (n : Nat) : Option ρ := t.rows.find? fun r => key r == n

/-! ## 2. Rows and keys -/

theorem eq_of_key {t : Table ρ} {a b : ρ} (ha : a ∈ t.rows) (hb : b ∈ t.rows)
    (h : key a = key b) : a = b :=
  List.inj_on_of_nodup_map (t.rising.imp Nat.ne_of_lt) ha hb h

theorem get?_eq_some {t : Table ρ} {n : Nat} {r : ρ} :
    t.get? n = some r ↔ r ∈ t.rows ∧ key r = n := by
  unfold get?
  constructor
  · intro h
    exact ⟨List.mem_of_find?_eq_some h, by simpa using List.find?_some h⟩
  · rintro ⟨hr, rfl⟩
    cases h : t.rows.find? fun x => key x == key r with
    | none => exact absurd (List.find?_eq_none.mp h r hr) (by simp)
    | some x =>
      have hk : key x = key r := by simpa using List.find?_some h
      rw [eq_of_key (List.mem_of_find?_eq_some h) hr hk]

theorem get?_key {t : Table ρ} {r : ρ} (h : r ∈ t.rows) : t.get? (key r) = some r :=
  get?_eq_some.mpr ⟨h, rfl⟩

@[simp] theorem mem_insert {t : Table ρ} {r x : ρ} :
    x ∈ (t.insert r).rows ↔ x ∈ t.rows ∨ x = rekey t.next r := by
  simp [insert]

@[simp] theorem mem_alter {t : Table ρ} {p : ρ → Bool} {f : ρ → ρ} {x : ρ} :
    x ∈ (t.alter p f).rows ↔ ∃ r ∈ t.rows, altered p f r = x := by
  simp [alter]

@[simp] theorem mem_keep {t : Table ρ} {p : ρ → Bool} {x : ρ} :
    x ∈ (t.keep p).rows ↔ x ∈ t.rows ∧ p x = true := by
  simp [keep]

theorem get?_alter (t : Table ρ) (p : ρ → Bool) (f : ρ → ρ) (n : Nat) :
    (t.alter p f).get? n = (t.get? n).map (altered p f) := by
  unfold get? alter
  rw [List.find?_map]
  congr 2
  funext r
  simp

end Table
end Lib
