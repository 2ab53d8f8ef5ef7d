/-
  File:      ConsensFlow/Lib/Paging.lean
  Subject:   A RUN READ A PAGE AT A TIME, each page from the place the one before says.

  * `follow` -- the reads that follow each answer's place;
  * `Page` -- what one read owes: what it shows of what is owed from its place, and less owed from the
    place it says;
  * **`follow_shows`** -- reads that each owe so much end, and show what was owed, each once;
  * `filter_later`, `filter_suffix` -- what comes after a place in a run in order.
-/
import Mathlib

namespace Lib.Paging

variable {K ε ω : Type}

/-! ## 1. Reads that follow one another -/

/-- The reads from the `n`th on, each from the place the one before says, `fuel` of them at the most:
    what they show, one after the other, where they end. -/
def follow (read : Nat → K → Option (List ε × Option K)) : Nat → Nat → K → Option (List ε)
  | 0, _, _ => none
  | fuel + 1, n, place =>
    match read n place with
    | none => none
    | some (shown, none) => some shown
    | some (shown, some next) => (follow read fuel (n + 1) next).map (shown ++ ·)

/-- A read from `place` shows what is owed from there up to the place it says, which owes less. -/
inductive Page (Valid : K → Prop) (owed : K → List ω) (weight : K → Nat) (Shows : ω → ε → Prop)
    (place : K) : List ε × Option K → Prop
  | last {shown : List ε} (all : List.Forall₂ Shows (owed place) shown) :
      Page Valid owed weight Shows place (shown, none)
  | more {shown : List ε} {next : K} {taken : List ω} (some_ : List.Forall₂ Shows taken shown)
      (left : owed place = taken ++ owed next) (moved : weight next < weight place)
      (valid : Valid next) : Page Valid owed weight Shows place (shown, some next)

/-- **Reads that follow one another end, and show all that was owed, each once.** -/
theorem follow_shows {Valid : K → Prop} {owed : K → List ω} {weight : K → Nat} {Shows : ω → ε → Prop}
    {read : Nat → K → Option (List ε × Option K)}
    (reads : ∀ n place, Valid place → ∃ answer, read n place = some answer ∧
      Page Valid owed weight Shows place answer)
    {fuel : Nat} (n : Nat) {place : K} (valid : Valid place) (enough : weight place < fuel) :
    ∃ shown, follow read fuel n place = some shown ∧ List.Forall₂ Shows (owed place) shown := by
  induction fuel generalizing n place with
  | zero => exact absurd enough (Nat.not_lt_zero _)
  | succ fuel ih =>
    obtain ⟨answer, hr, page⟩ := reads n place valid
    rw [follow, hr]
    cases page with
    | last all => exact ⟨_, rfl, all⟩
    | @more shown next taken some_ left moved valid =>
      obtain ⟨rest, hrest, owes⟩ := ih (n + 1) valid (by omega)
      refine ⟨shown ++ rest, ?_, ?_⟩
      · dsimp only
        rw [hrest]
        rfl
      · rw [left]
        exact List.rel_append some_ owes

/-! ## 2. After a place -/

/-- **What comes after a place of a run in order**, and what begins with it. -/
theorem filter_later {α π : Type} [DecidableEq π] {later : π → π → Bool}
    (one_way : ∀ p q, later p q = true → later q p = false) (at_ : α → π) {first rest : List α} {x : α}
    (sorted : (first ++ x :: rest).Pairwise fun a b => later (at_ a) (at_ b) = true) :
    (first ++ x :: rest).filter (fun y => later (at_ x) (at_ y)) = rest ∧
      (first ++ x :: rest).filter (fun y => later (at_ x) (at_ y) || decide (at_ x = at_ y)) =
        x :: rest := by
  obtain ⟨-, sorted', before⟩ := List.pairwise_append.1 sorted
  obtain ⟨after, -⟩ := List.pairwise_cons.1 sorted'
  have still : ∀ p, later p p = false := fun p => by
    cases h : later p p with
    | false => rfl
    | true => exact absurd (h.symm.trans (one_way p p h)) (by decide)
  have earlier : ∀ y ∈ first, later (at_ x) (at_ y) = false ∧ at_ x ≠ at_ y := fun y hy => by
    have h := before y hy x List.mem_cons_self
    refine ⟨one_way _ _ h, fun same => ?_⟩
    rw [same, still] at h
    cases h
  constructor
  · rw [List.filter_append, List.filter_cons, still, List.filter_eq_nil_iff.2, List.filter_eq_self.2]
    · rfl
    · exact after
    · exact fun y hy => by rw [(earlier y hy).1]; decide
  · rw [List.filter_append, List.filter_cons, still, List.filter_eq_nil_iff.2, List.filter_eq_self.2]
    · simp
    · exact fun y hy => by rw [after y hy]; rfl
    · exact fun y hy => by rw [(earlier y hy).1, decide_eq_false (earlier y hy).2]; decide

/-- What holds of an element and so of every one after it holds of the end of a run. -/
theorem filter_suffix {α : Type} {keep : α → Bool} {as : List α}
    (onward : as.Pairwise fun a b => keep a = true → keep b = true) : as.filter keep <:+ as := by
  induction as with
  | nil => exact List.suffix_rfl
  | cons a as ih =>
    obtain ⟨after, rest⟩ := List.pairwise_cons.1 onward
    rw [List.filter_cons]
    split
    · rename_i kept
      exact ⟨[], congrArg (a :: ·) (List.filter_eq_self.2 fun b hb => after b hb kept)⟩
    · exact (ih rest).trans (List.suffix_cons _ _)

end Lib.Paging
