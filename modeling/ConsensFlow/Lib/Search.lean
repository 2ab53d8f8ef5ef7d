/-
  File:      ConsensFlow/Lib/Search.lean
  Subject:   WORDS SOUGHT IN A RUN kept in pieces, each element read as one or more (a letter and its
             lower case): each piece searched with the end of the one before.

  * `firstAt`, `holds` -- where the words first begin, and whether they do;
  * `infix_end` -- words no longer than the end kept of a run, and one more, are in it, or begin in
    its end;
  * `foundIn` -- the pieces, one after the other; **`foundIn_iff`**: they hold the words where the
    whole run does;
  * `chunks` -- a run cut every so many elements.
-/
import ConsensFlow.Lib.Lines

namespace Lib.Search

open Lib.Lines

variable {α β : Type}

/-! ## 1. Where words begin -/

section Words

variable [DecidableEq β]

/-- Where `words` first begin in a run. -/
def firstAt (words : List β) : List β → Option Nat
  | [] => if words.isEmpty then some 0 else none
  | b :: bs => if words.isPrefixOf (b :: bs) then some 0 else (firstAt words bs).map (· + 1)

def holds (words bs : List β) : Bool := (firstAt words bs).isSome

theorem holds_iff {words bs : List β} : holds words bs = true ↔ words <:+: bs := by
  induction bs with
  | nil =>
    rw [holds, firstAt, List.infix_nil, ← List.isEmpty_iff]
    cases words.isEmpty <;> decide
  | cons b bs ih =>
    rw [List.infix_cons_iff, ← ih, ← List.isPrefixOf_iff_prefix, holds, firstAt]
    cases words.isPrefixOf (b :: bs) with
    | true => simp
    | false => simp [holds]

end Words

/-! ## 2. The end of a run -/

theorem lastOf_suffix (n : Nat) (as : List α) : lastOf n as <:+ as := List.drop_suffix _ _

theorem lastOf_all {n : Nat} {as : List α} (h : as.length ≤ n) : lastOf n as = as := by
  rw [lastOf, Nat.sub_eq_zero_of_le h, List.drop_zero]

/-- The end of a run is that of its last part, where that is long enough. -/
theorem lastOf_append {n : Nat} (as : List α) {bs : List α} (h : n ≤ bs.length) :
    lastOf n (as ++ bs) = lastOf n bs := by
  have more : as.length ≤ (as ++ bs).length - n := by
    rw [List.length_append]
    omega
  rw [lastOf, lastOf, List.drop_append, List.drop_of_length_le more, List.nil_append]
  congr 1
  rw [List.length_append]
  omega

theorem lastOf_lastOf {n m : Nat} (h : n ≤ m) (as : List α) : lastOf n (lastOf m as) = lastOf n as := by
  unfold lastOf
  rw [List.drop_drop, List.length_drop]
  congr 1
  omega

variable {f : α → List β}

theorem length_le_flatMap (some_ : ∀ a, f a ≠ []) (as : List α) : as.length ≤ (as.flatMap f).length := by
  induction as with
  | nil => exact Nat.le_refl _
  | cons a as ih =>
    have := List.length_pos_iff.2 (some_ a)
    rw [List.flatMap_cons, List.length_cons, List.length_append]
    omega

theorem flatMap_lastOf (f : α → List β) (n : Nat) (as : List α) :
    (lastOf n as).flatMap f <:+ as.flatMap f := by
  obtain ⟨before, whole⟩ := lastOf_suffix n as
  refine ⟨before.flatMap f, ?_⟩
  rw [← List.flatMap_append, whole]

/-- **Words are in a run, or begin in its end**, where the end kept is shorter than they by one at
    the most. -/
theorem infix_end (some_ : ∀ a, f a ≠ []) {reach : Nat} {words : List β}
    (short : words.length ≤ reach + 1) (as : List α) (bs : List β) :
    words <:+: as.flatMap f ++ bs ↔
      words <:+: as.flatMap f ∨ words <:+: (lastOf reach as).flatMap f ++ bs := by
  constructor
  · intro h
    rcases List.infix_append_iff_ne_nil.1 h with h | h | ⟨l₁, l₂, -, some₂, rfl, h₁, h₂⟩
    · exact .inl h
    · exact .inr (List.infix_append_of_infix_right h)
    · refine .inr (List.infix_append_iff.2 (.inr (.inr ⟨l₁, l₂, rfl, ?_, h₂⟩)))
      rcases Nat.le_total as.length reach with all | long
      · rw [lastOf_all all]
        exact h₁
      · refine List.suffix_of_suffix_length_le h₁ (flatMap_lastOf f reach as) ?_
        have := length_le_flatMap some_ (lastOf reach as)
        have := List.length_pos_iff.2 some₂
        rw [lastOf_length, Nat.min_eq_left long] at *
        rw [List.length_append] at short
        omega
  · rintro (h | h)
    · exact List.infix_append_of_infix_left h
    · obtain ⟨before, whole⟩ := flatMap_lastOf f reach as
      rw [← whole, List.append_assoc]
      exact List.infix_append_of_infix_right h

/-! ## 3. Pieces searched one after the other -/

variable [DecidableEq β]

/-- The pieces after `before`, each searched with the end of the one before it. -/
def foundIn (f : α → List β) (words : List β) (reach : Nat) (before : List α) : List (List α) → Bool
  | [] => false
  | piece :: pieces =>
    holds words ((lastOf reach before ++ piece).flatMap f) || foundIn f words reach piece pieces

/-- The pieces and the end before them hold the words where that end does, or a piece with the end of
    the one before. -/
theorem foundIn_iff_of_end (some_ : ∀ a, f a ≠ []) {reach : Nat} {words : List β}
    (short : words.length ≤ reach + 1) {before : List α} {pieces : List (List α)}
    (long : ∀ piece ∈ pieces.dropLast, reach ≤ piece.length) :
    words <:+: (lastOf reach before ++ pieces.flatten).flatMap f ↔
      words <:+: (lastOf reach before).flatMap f ∨ foundIn f words reach before pieces = true := by
  induction pieces generalizing before with
  | nil => simp [foundIn]
  | cons piece pieces ih =>
    have within : words <:+: (lastOf reach before).flatMap f →
        words <:+: (lastOf reach before ++ piece).flatMap f := by
      rw [List.flatMap_append]
      exact List.infix_append_of_infix_left
    have whole : (lastOf reach before ++ (piece :: pieces).flatten).flatMap f =
        (lastOf reach before ++ piece).flatMap f ++ pieces.flatten.flatMap f := by
      rw [List.flatten_cons, ← List.append_assoc, List.flatMap_append]
    rw [whole, infix_end some_ short, foundIn, Bool.or_eq_true, holds_iff]
    cases pieces with
    | nil =>
      obtain ⟨start, ends⟩ := flatMap_lastOf f reach (lastOf reach before ++ piece)
      have last : words <:+: (lastOf reach (lastOf reach before ++ piece)).flatMap f →
          words <:+: (lastOf reach before ++ piece).flatMap f := by
        intro h
        rw [← ends]
        exact List.infix_append_of_infix_right h
      simp only [List.flatten_nil, List.flatMap_nil, List.append_nil, foundIn, Bool.false_eq_true,
        or_false]
      constructor
      · rintro (h | h)
        · exact .inr h
        · exact .inr (last h)
      · rintro (h | h)
        · exact .inl (within h)
        · exact .inl h
    | cons next pieces =>
      have longPiece : reach ≤ piece.length := long piece (List.mem_cons_self)
      have later := @ih piece fun p hp => long p (List.mem_cons_of_mem _ hp)
      rw [lastOf_append _ longPiece, ← List.flatMap_append, later]
      obtain ⟨start, ends⟩ := flatMap_lastOf f reach piece
      have last : words <:+: (lastOf reach piece).flatMap f →
          words <:+: (lastOf reach before ++ piece).flatMap f := by
        intro h
        rw [List.flatMap_append, ← ends]
        exact List.infix_append_of_infix_right (List.infix_append_of_infix_right h)
      constructor
      · rintro (h | h | h)
        · exact .inr (.inl h)
        · exact .inr (.inl (last h))
        · exact .inr (.inr h)
      · rintro (h | h | h)
        · exact .inl (within h)
        · exact .inl h
        · exact .inr (.inr h)

/-- **The pieces of a run hold words where the run does**, however they are cut. -/
theorem foundIn_iff (some_ : ∀ a, f a ≠ []) {reach : Nat} {words : List β} (said : words ≠ [])
    (short : words.length ≤ reach + 1) {pieces : List (List α)}
    (long : ∀ piece ∈ pieces.dropLast, reach ≤ piece.length) :
    foundIn f words reach [] pieces = holds words (pieces.flatten.flatMap f) := by
  have none_ : lastOf reach ([] : List α) = [] := lastOf_all (Nat.zero_le _)
  have h : words <:+: (lastOf reach [] ++ pieces.flatten).flatMap f ↔ _ :=
    foundIn_iff_of_end some_ short long
  rw [none_, List.nil_append, List.flatMap_nil, List.infix_nil, ← holds_iff] at h
  rw [Bool.eq_iff_iff, h]
  exact ⟨.inr, fun h => h.resolve_left said⟩

/-! ## 4. Cut every so many -/

omit [DecidableEq β]

/-- A run cut every `n` elements, the last piece to its end. -/
def chunks (n : Nat) (as : List α) : List (List α) := pieces (List.replicate as.length (n - 1)) as

theorem chunks_flatten (n : Nat) (as : List α) : (chunks n as).flatten = as := pieces_flatten _ _

/-- Every piece is full but the last, which is no longer. -/
theorem chunks_length {n : Nat} (some_ : 0 < n) (as : List α) :
    (∀ piece ∈ (chunks n as).dropLast, piece.length = n) ∧ ∀ piece ∈ chunks n as, piece.length ≤ n := by
  have any : ∀ (count : Nat) (as : List α), as.length ≤ count →
      (∀ piece ∈ (pieces (List.replicate count (n - 1)) as).dropLast, piece.length = n) ∧
        ∀ piece ∈ pieces (List.replicate count (n - 1)) as, piece.length ≤ n := by
    intro count
    induction count with
    | zero =>
      intro as h
      cases List.eq_nil_of_length_eq_zero (Nat.le_zero.1 h)
      exact ⟨fun _ hp => absurd hp List.not_mem_nil, fun _ hp => absurd hp List.not_mem_nil⟩
    | succ count ih =>
      intro as h
      cases as with
      | nil => exact ⟨fun _ hp => absurd hp List.not_mem_nil, fun _ hp => absurd hp List.not_mem_nil⟩
      | cons a as =>
        have taken : (a :: as.take (n - 1)).length ≤ n := by
          rw [List.length_cons, List.length_take]
          omega
        have rest : (as.drop (n - 1)).length ≤ count := by
          rw [List.length_drop]
          rw [List.length_cons] at h
          omega
        obtain ⟨full, short⟩ := ih _ rest
        rw [List.replicate_succ, pieces]
        refine ⟨fun piece hp => ?_, fun piece hp => ?_⟩
        · cases hm : pieces (List.replicate count (n - 1)) (as.drop (n - 1)) with
          | nil =>
            rw [hm] at hp
            exact absurd hp List.not_mem_nil
          | cons next more =>
            rw [hm, List.dropLast_cons_of_ne_nil (List.cons_ne_nil _ _)] at hp
            rcases List.mem_cons.1 hp with rfl | hp
            · -- Something is left after it, so it is full.
              have left : as.drop (n - 1) ≠ [] := by
                intro none_
                rw [none_] at hm
                cases count <;> cases hm
              have := List.length_pos_iff.2 left
              rw [List.length_drop] at this
              rw [List.length_cons, List.length_take]
              omega
            · exact full piece (by rw [hm]; exact hp)
        · rcases List.mem_cons.1 hp with rfl | hp
          · exact taken
          · exact short piece hp
  exact any as.length as (Nat.le_refl _)

/-- What is left of a run after some pieces of one length, of which the last may be shorter. -/
theorem flatten_drop {n : Nat} {pieces : List (List α)}
    (full : ∀ piece ∈ pieces.dropLast, piece.length = n) (short : ∀ piece ∈ pieces, piece.length ≤ n)
    (count : Nat) : (pieces.drop count).flatten = pieces.flatten.drop (count * n) := by
  induction count generalizing pieces with
  | zero => rw [Nat.zero_mul, List.drop_zero, List.drop_zero]
  | succ count ih =>
    cases pieces with
    | nil => rw [List.drop_nil, List.flatten_nil, List.drop_nil]
    | cons piece pieces =>
      rw [List.drop_succ_cons, List.flatten_cons, Nat.succ_mul, Nat.add_comm, ← List.drop_drop]
      cases pieces with
      | nil =>
        rw [List.drop_nil, List.flatten_nil, List.append_nil,
          List.drop_of_length_le (short piece List.mem_cons_self), List.drop_nil]
      | cons next pieces =>
        have whole : piece.length = n := full piece List.mem_cons_self
        rw [List.drop_left' whole]
        exact ih (fun p hp => full p (List.mem_cons_of_mem _ hp))
          (fun p hp => short p (List.mem_cons_of_mem _ hp))

/-- A piece with another after it is full. -/
theorem full_of_next {n : Nat} {pieces : List (List α)}
    (full : ∀ piece ∈ pieces.dropLast, piece.length = n) {count : Nat} {piece : List α}
    (h : pieces[count]? = some piece) (next : pieces.drop (count + 1) ≠ []) : piece.length = n := by
  have more : count + 1 < pieces.length := by
    refine Nat.lt_of_not_le fun none_ => next ?_
    exact List.drop_of_length_le none_
  refine full piece (List.mem_iff_getElem?.2 ⟨count, ?_⟩)
  rw [List.getElem?_dropLast, if_pos (by omega), h]

end Lib.Search
