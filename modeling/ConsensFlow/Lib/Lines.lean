/-
  File:      ConsensFlow/Lib/Lines.lean
  Subject:   LINES IN A RUN OF ELEMENTS: pieces each ended by a separator, and the rest after the
             last of them.

  * `joined` -- lines, each with its separator;
  * `split` -- the ended lines, and the rest; **`split_joined`**, `joined_split`: the two go back
    and forth;
  * `parted`, `placed` -- a run cut at every separator, and where each part begins;
  * `pieces` -- a run cut anywhere; `pieces_flatten`: nothing is lost by it;
  * `lastOf` -- the end of a run.
-/
import Mathlib

namespace Lib.Lines

variable {α : Type}

/-! ## 1. Joined -/

/-- The lines, each ended by `sep`. -/
def joined (sep : α) (lines : List (List α)) : List α := lines.flatMap fun line => line ++ [sep]

@[simp] theorem joined_nil (sep : α) : joined sep [] = [] := rfl

@[simp] theorem joined_append (sep : α) (lines more : List (List α)) :
    joined sep (lines ++ more) = joined sep lines ++ joined sep more := List.flatMap_append

theorem joined_cons (sep : α) (line : List α) (lines : List (List α)) :
    joined sep (line :: lines) = line ++ sep :: joined sep lines := by
  simp [joined]

theorem joined_concat (sep : α) (lines : List (List α)) (line : List α) :
    joined sep (lines ++ [line]) = joined sep lines ++ (line ++ [sep]) := by
  rw [joined_append, joined_cons, joined_nil]

/-! ## 2. Split -/

variable [DecidableEq α]

/-- The lines `sep` ends, and what follows the last of them. -/
def split (sep : α) : List α → List (List α) × List α
  | [] => ([], [])
  | a :: as =>
    match split sep as with
    | (lines, rest) =>
      if a = sep then ([] :: lines, rest)
      else
        match lines with
        | [] => ([], a :: rest)
        | line :: lines => ((a :: line) :: lines, rest)

theorem split_of_not_mem {sep : α} {rest : List α} (h : sep ∉ rest) :
    split sep rest = ([], rest) := by
  induction rest with
  | nil => rfl
  | cons a rest ih =>
    rw [List.mem_cons, not_or] at h
    rw [split, ih h.2]
    simp only [if_neg (Ne.symm h.1)]

theorem split_line {sep : α} {line rest : List α} (h : sep ∉ line) :
    split sep (line ++ sep :: rest) = (line :: (split sep rest).1, (split sep rest).2) := by
  induction line with
  | nil => simp only [List.nil_append, split, if_true]
  | cons a line ih =>
    rw [List.mem_cons, not_or] at h
    rw [List.cons_append, split, ih h.2]
    simp only [if_neg (Ne.symm h.1)]

/-- **Lines joined are split as they were**, with what follows them. -/
theorem split_joined {sep : α} {lines : List (List α)} {rest : List α}
    (hlines : ∀ line ∈ lines, sep ∉ line) (hrest : sep ∉ rest) :
    split sep (joined sep lines ++ rest) = (lines, rest) := by
  induction lines with
  | nil => exact split_of_not_mem hrest
  | cons line lines ih =>
    rw [joined_cons, List.append_assoc, List.cons_append,
      split_line (hlines line List.mem_cons_self),
      ih fun line hl => hlines line (List.mem_cons_of_mem _ hl)]

/-- A run is its lines, and what follows them. -/
theorem joined_split (sep : α) (as : List α) :
    joined sep (split sep as).1 ++ (split sep as).2 = as ∧
      (∀ line ∈ (split sep as).1, sep ∉ line) ∧ sep ∉ (split sep as).2 := by
  induction as with
  | nil => exact ⟨rfl, (fun _ h => absurd h List.not_mem_nil), List.not_mem_nil⟩
  | cons a as ih =>
    obtain ⟨whole, lines_, rest_⟩ := ih
    rw [split]
    cases hs : split sep as with
    | mk lines rest =>
      rw [hs] at whole lines_ rest_
      by_cases ha : a = sep
      · simp only [if_pos ha]
        refine ⟨?_, ?_, rest_⟩
        · rw [joined_cons, List.nil_append, List.cons_append, whole, ha]
        · intro line hl
          rcases List.mem_cons.1 hl with rfl | hl
          · exact List.not_mem_nil
          · exact lines_ line hl
      · simp only [if_neg ha]
        cases lines with
        | nil =>
          refine ⟨congrArg (a :: ·) whole, fun _ h => absurd h List.not_mem_nil, ?_⟩
          exact fun h => (List.mem_cons.1 h).elim (fun e => ha e.symm) rest_
        | cons line lines =>
          refine ⟨?_, ?_, rest_⟩
          · rw [joined_cons] at whole ⊢
            exact congrArg (a :: ·) whole
          · intro l hl
            rcases List.mem_cons.1 hl with rfl | hl
            · exact fun h => (List.mem_cons.1 h).elim (fun e => ha e.symm)
                (lines_ line List.mem_cons_self)
            · exact lines_ l (List.mem_cons_of_mem _ hl)

/-! ## 3. Cut at every separator -/

/-- A run cut at every separator: the ended lines, and what follows the last of them. -/
def parted (sep : α) (as : List α) : List (List α) := (split sep as).1 ++ [(split sep as).2]

theorem parted_of_not_mem {sep : α} {as : List α} (h : sep ∉ as) : parted sep as = [as] := by
  rw [parted, split_of_not_mem h]
  rfl

/-- Cut at one separator, the two sides are cut on their own. -/
theorem parted_append (sep : α) (as bs : List α) :
    parted sep (as ++ sep :: bs) = parted sep as ++ parted sep bs := by
  obtain ⟨whole, lines_, rest_⟩ := joined_split sep as
  obtain ⟨whole', lines', rest'⟩ := joined_split sep bs
  have cut : as ++ sep :: bs =
      joined sep ((split sep as).1 ++ (split sep as).2 :: (split sep bs).1) ++ (split sep bs).2 := by
    rw [joined_append, joined_cons, List.append_assoc, List.append_assoc, List.cons_append, whole',
      ← List.append_assoc, whole]
  have clear : ∀ line ∈ (split sep as).1 ++ (split sep as).2 :: (split sep bs).1, sep ∉ line := by
    intro line hl
    rcases List.mem_append.1 hl with hl | hl
    · exact lines_ line hl
    · rcases List.mem_cons.1 hl with rfl | hl
      · exact rest_
      · exact lines' line hl
  rw [parted, cut, split_joined clear rest']
  simp [parted]

/-- The parts, each with a separator, are the run and one separator more. -/
theorem joined_parted (sep : α) (as : List α) : joined sep (parted sep as) = as ++ [sep] := by
  rw [parted, joined_concat, ← List.append_assoc, (joined_split sep as).1]

theorem parted_clear (sep : α) (as : List α) : ∀ line ∈ parted sep as, sep ∉ line := by
  obtain ⟨-, lines_, rest_⟩ := joined_split sep as
  intro line one
  rcases List.mem_append.1 one with one | one
  · exact lines_ line one
  · rw [List.mem_singleton.1 one]
    exact rest_

/-- There is a first part, and each part after it stands behind a separator. -/
theorem parted_flat (sep : α) (as : List α) : ∃ first others, parted sep as = first :: others ∧
    as = first ++ others.flatMap (sep :: ·) := by
  have behind (others : List (List α)) :
      sep :: joined sep others = others.flatMap (sep :: ·) ++ [sep] := by
    induction others with
    | nil => rfl
    | cons line others ih =>
      rw [joined_cons, ih, List.flatMap_cons, List.append_assoc]
      rfl
  have whole := joined_parted sep as
  cases form : parted sep as with
  | nil => exact absurd form (List.append_ne_nil_of_right_ne_nil _ (List.cons_ne_nil _ _))
  | cons first others =>
    rw [form, joined_cons, behind, ← List.append_assoc] at whole
    exact ⟨first, others, rfl, (List.append_cancel_right whole).symm⟩

/-- There is one part more than separators. -/
theorem length_parted (sep : α) (as : List α) : (parted sep as).length = as.count sep + 1 := by
  have ended {lines : List (List α)} (clear : ∀ line ∈ lines, sep ∉ line) :
      (joined sep lines).count sep = lines.length := by
    induction lines with
    | nil => rfl
    | cons line lines ih =>
      rw [joined_cons, List.count_append, List.count_cons_self,
        List.count_eq_zero.2 (clear line List.mem_cons_self),
        ih fun one here => clear one (List.mem_cons_of_mem _ here), List.length_cons, Nat.zero_add]
  rw [← ended (parted_clear sep as), joined_parted, List.count_append, List.count_singleton_self]

/-- A run is its ended lines; what follows them is empty just where it ends with a separator. -/
theorem split_snd_nil {sep : α} {as : List α} (h : as ≠ []) :
    (split sep as).2 = [] ↔ as.getLast? = some sep := by
  obtain ⟨whole, -, rest_⟩ := joined_split sep as
  constructor
  · intro nothing
    rw [nothing, List.append_nil] at whole
    rcases List.eq_nil_or_concat (split sep as).1 with e | ⟨lines, line, e⟩
    · rw [e] at whole
      exact absurd whole.symm h
    · rw [e, List.concat_eq_append, joined_concat, ← List.append_assoc] at whole
      rw [← whole, List.getLast?_concat]
  · intro last
    by_contra some_
    rw [← whole, List.getLast?_append, List.getLast?_eq_some_getLast some_, Option.some_or] at last
    have inside := List.getLast_mem some_
    rw [Option.some.inj last] at inside
    exact rest_ inside

omit [DecidableEq α]

/-- Each part of a run with the place it begins at, the first at `at_`: a separator is between one
    and the next. -/
def placed (at_ : Nat) : List (List α) → List (Nat × List α)
  | [] => []
  | part :: parts => (at_, part) :: placed (at_ + part.length + 1) parts

theorem placed_append (sep : α) (at_ : Nat) (parts more : List (List α)) :
    placed at_ (parts ++ more) =
      placed at_ parts ++ placed (at_ + (joined sep parts).length) more := by
  induction parts generalizing at_ with
  | nil => rfl
  | cons part parts ih =>
    rw [List.cons_append, placed, placed, ih, joined_cons, List.cons_append, List.length_append,
      List.length_cons]
    congr 3
    omega

/-- What ended lines are made of comes before what follows them. -/
theorem placed_before (sep : α) {at_ : Nat} {parts : List (List α)} {p : Nat × List α}
    (h : p ∈ placed at_ parts) : at_ ≤ p.1 ∧ p.1 < at_ + (joined sep parts).length := by
  induction parts generalizing at_ with
  | nil => exact absurd h List.not_mem_nil
  | cons part parts ih =>
    rw [joined_cons, List.length_append, List.length_cons]
    rcases List.mem_cons.1 h with rfl | h
    · exact ⟨le_rfl, by show at_ < _; omega⟩
    · obtain ⟨after, before⟩ := ih h
      exact ⟨by omega, by omega⟩

theorem placed_snd (at_ : Nat) (parts : List (List α)) : (placed at_ parts).map Prod.snd = parts := by
  induction parts generalizing at_ with
  | nil => rfl
  | cons part parts ih => rw [placed, List.map_cons, ih]

/-! ## 4. Cut into pieces -/

/-- A run cut where `cuts` says, the last piece to its end: each cut takes one element at least. -/
def pieces : List Nat → List α → List (List α)
  | _, [] => []
  | [], as => [as]
  | n :: cuts, a :: as => (a :: as.take n) :: pieces cuts (as.drop n)

theorem pieces_flatten (cuts : List Nat) (as : List α) : (pieces cuts as).flatten = as := by
  induction cuts generalizing as with
  | nil => cases as <;> simp [pieces]
  | cons n cuts ih =>
    cases as with
    | nil => rfl
    | cons a as => rw [pieces, List.flatten_cons, ih, List.cons_append, List.take_append_drop]

/-- The last `n` elements. -/
def lastOf (n : Nat) (as : List α) : List α := as.drop (as.length - n)

theorem lastOf_length (n : Nat) (as : List α) : (lastOf n as).length = min n as.length := by
  rw [lastOf, List.length_drop]
  omega

end Lib.Lines
