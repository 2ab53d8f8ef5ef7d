/-
  File:      ConsensFlow/Lib/Rows.lean
  Subject:   ROWS UNDER A PRIMARY KEY the statements give (a key a program makes, not one the store
             counts).

  * `rowAt` -- the row of a key;
  * `upsert` -- `INSERT … ON CONFLICT (key) DO UPDATE`: the row there was is updated, else the one
    given goes in;
  * **`rowAt_upsert`**, `rowAt_filter` -- what is under a key after a statement;
  * `keys_upsert`, `mem_upsert` -- the keys stay apart, and which rows there are then.
-/
import Mathlib

namespace Lib.Rows

variable {ρ κ : Type} [DecidableEq κ]

/-! ## 1. Statements -/

/-- The row of a key. -/
def rowAt (key : ρ → κ) (k : κ) (rows : List ρ) : Option ρ := rows.find? fun r => key r = k

/-- The row under the key of `row` updated, else `row` put in. -/
def upsert (key : ρ → κ) (update : ρ → ρ) (row : ρ) (rows : List ρ) : List ρ :=
  if rows.any fun r => key r = key row then
    rows.map fun r => if key r = key row then update r else r
  else rows ++ [row]

/-! ## 2. What is under a key then -/

variable {key : ρ → κ}

theorem rowAt_mem {k : κ} {rows : List ρ} {r : ρ} (h : rowAt key k rows = some r) :
    r ∈ rows ∧ key r = k :=
  ⟨List.mem_of_find?_eq_some h, of_decide_eq_true (@List.find?_some _ (fun r => key r = k) _ _ h)⟩

theorem rowAt_eq_none {k : κ} {rows : List ρ} : rowAt key k rows = none ↔ ∀ r ∈ rows, key r ≠ k := by
  rw [rowAt, List.find?_eq_none]
  exact forall₂_congr fun r _ => by rw [decide_eq_true_eq]

/-- No two rows share a key: the row of a key is any row that has it. -/
theorem rowAt_of_mem {rows : List ρ} (apart : (rows.map key).Nodup) {r : ρ} (h : r ∈ rows) :
    rowAt key (key r) rows = some r := by
  cases found : rowAt key (key r) rows with
  | none => exact absurd rfl (rowAt_eq_none.1 found r h)
  | some other =>
    obtain ⟨mem, same⟩ := rowAt_mem found
    exact congrArg some (List.inj_on_of_nodup_map apart mem h same)

theorem rowAt_append (k : κ) (rows more : List ρ) :
    rowAt key k (rows ++ more) = (rowAt key k rows).or (rowAt key k more) := List.find?_append

theorem rowAt_singleton (k : κ) (r : ρ) : rowAt key k [r] = if key r = k then some r else none := by
  rw [rowAt, List.find?_singleton]
  exact if_congr decide_eq_true_iff rfl rfl

theorem rowAt_map {k : κ} {f : ρ → ρ} (keeps : ∀ r, key (f r) = key r) (rows : List ρ) :
    rowAt key k (rows.map f) = (rowAt key k rows).map f := by
  unfold rowAt
  rw [List.find?_map]
  refine congrArg (Option.map f) (congrArg (List.find? · rows) (funext fun r => ?_))
  rw [Function.comp_apply, keeps]

/-- **What is under a key after an upsert.** -/
theorem rowAt_upsert {update : ρ → ρ} (keeps : ∀ r, key (update r) = key r) (row : ρ) (rows : List ρ)
    (k : κ) : rowAt key k (upsert key update row rows) =
      if key row = k then some ((rowAt key k rows).elim row update) else rowAt key k rows := by
  unfold upsert
  split
  · rename_i there
    rw [rowAt_map fun r => by split <;> simp only [keeps]]
    obtain ⟨r, hr, same⟩ := List.any_eq_true.1 there
    cases found : rowAt key k rows with
    | none =>
      rw [if_neg fun h => rowAt_eq_none.1 found r hr ((of_decide_eq_true same).trans h)]
      rfl
    | some old =>
      obtain ⟨-, hk⟩ := rowAt_mem found
      rw [Option.map_some, hk]
      by_cases h : key row = k
      · rw [if_pos h.symm, if_pos h]
        rfl
      · rw [if_neg fun e => h e.symm, if_neg h]
  · rename_i absent
    have none_ : rowAt key (key row) rows = none :=
      rowAt_eq_none.2 fun r hr same => absent (List.any_eq_true.2 ⟨r, hr, decide_eq_true same⟩)
    rw [rowAt_append, rowAt_singleton]
    split
    · rename_i same
      rw [← same, none_]
      rfl
    · exact Option.or_none

/-- What is under a key after rows are taken away by their keys. -/
theorem rowAt_filter {keep : ρ → Bool} {kept : κ → Bool} (by_key : ∀ r, keep r = kept (key r))
    (rows : List ρ) (k : κ) :
    rowAt key k (rows.filter keep) = if kept k then rowAt key k rows else none := by
  unfold rowAt
  rw [List.find?_filter]
  split
  · rename_i stays
    refine congrArg (List.find? · rows) (funext fun r => ?_)
    refine decide_eq_decide.2 ⟨fun both => of_decide_eq_true both.2, fun same => ⟨?_, ?_⟩⟩
    · rw [by_key, same, stays]
    · exact decide_eq_true same
  · rename_i goes
    refine List.find?_eq_none.2 fun r _ both => goes ?_
    obtain ⟨keeps, same⟩ := of_decide_eq_true both
    have same : key r = k := of_decide_eq_true same
    rw [← same, ← by_key]
    exact keeps

/-! ## 3. The keys stay apart -/

theorem keys_upsert {update : ρ → ρ} (keeps : ∀ r, key (update r) = key r) {row : ρ} {rows : List ρ}
    (apart : (rows.map key).Nodup) : ((upsert key update row rows).map key).Nodup := by
  unfold upsert
  split
  · rw [List.map_map]
    have same : (key ∘ fun r => if key r = key row then update r else r) = key := by
      funext r
      rw [Function.comp_apply]
      split <;> simp only [keeps]
    rw [same]
    exact apart
  · rename_i absent
    rw [List.map_append, List.map_singleton, List.nodup_append]
    refine ⟨apart, List.nodup_singleton _, ?_⟩
    rintro a ha b hb rfl
    obtain ⟨r, hr, rfl⟩ := List.mem_map.1 ha
    exact absent (List.any_eq_true.2 ⟨r, hr, decide_eq_true (List.mem_singleton.1 hb)⟩)

omit [DecidableEq κ] in
theorem keys_filter {rows : List ρ} (apart : (rows.map key).Nodup) (keep : ρ → Bool) :
    ((rows.filter keep).map key).Nodup :=
  apart.sublist (List.filter_sublist.map key)

theorem mem_upsert {update : ρ → ρ} {row r : ρ} {rows : List ρ} (h : r ∈ upsert key update row rows) :
    r = row ∨ (∃ old ∈ rows, key old = key row ∧ r = update old) ∨ r ∈ rows ∧ key r ≠ key row := by
  unfold upsert at h
  split at h
  · obtain ⟨old, hold, rfl⟩ := List.mem_map.1 h
    split
    · rename_i same
      exact .inr (.inl ⟨old, hold, same, rfl⟩)
    · rename_i apart
      exact .inr (.inr ⟨hold, apart⟩)
  · rename_i absent
    rcases List.mem_append.1 h with h | h
    · exact .inr (.inr ⟨h, fun same => absent (List.any_eq_true.2 ⟨r, h, decide_eq_true same⟩)⟩)
    · exact .inl (List.mem_singleton.1 h)

end Lib.Rows
