/-
  File:      ConsensFlow/Harness/Tail.lean
  Subject:   A RECORD READ FROM ITS END (`lines_back`): its lines are given from the last back, block
             by block, until the bound is read or the reader breaks.

  * `linesBack` -- the source's loop, with the head of the block it carries to the next;
  * `linesWithin` -- the lines of a file that begin within its last bytes, in order;
  * `linesWithin_cut` -- a line break past the bound cuts them in two;
  * **`lines_back_reversed`** -- the reader is given these lines reversed, each once, until it breaks.

  The file is one content while it is read, and no read of it fails.
-/
import ConsensFlow.Lib.Lines

namespace ConsensFlow
namespace Harness

open Lib.Lines

/-! ## 1. The reader -/

inductive ControlFlow where
  | goOn
  | stop
  deriving DecidableEq, Repr

/-- What is given a line: what it answers, and what it knows then. -/
abbrev EachLine (σ : Type) := σ → String → ControlFlow × σ

def lineBreak : UInt8 := 10

/-- How much a read takes at most: something. -/
abbrev BlockSize := { n : Nat // 0 < n }

/-- How much each read takes. -/
def block : BlockSize := ⟨64 * 1024, by decide⟩

section Back

variable {σ : Type} (visit : EachLine σ)

/-- `give`: a line that is no UTF-8 is not given, nor is the empty one. -/
def give (line : List UInt8) (s : σ) : ControlFlow × σ :=
  match String.fromUTF8? ⟨line.toArray⟩ with
  | some text => if text ≠ "" then visit s text else (.goOn, s)
  | none => (.goOn, s)

/-- Lines given one after the other until the reader breaks. -/
def giveEach : List (List UInt8) → σ → ControlFlow × σ
  | [], s => (.goOn, s)
  | line :: lines, s =>
    match give visit line s with
    | (.stop, s) => (.stop, s)
    | (.goOn, s) => giveEach lines s

/-- Where the reader breaks, what follows is not done. -/
def onward (given : ControlFlow × σ) (go : σ → σ) : σ :=
  match given with
  | (.stop, s) => s
  | (.goOn, s) => go s

/-- The loop, with blocks of any size: `file` is read back from `at_` to `floor`; `carried` is the
    end of a line whose beginning is before `at_`. -/
def linesBackFrom (block : BlockSize) (file : List UInt8) (floor at_ : Nat) (carried : List UInt8)
    (s : σ) : σ :=
  if _ : at_ > floor then
    let start := max (at_ - block) floor
    let read := (file.take at_).drop start ++ carried
    match read.findIdx? (· == lineBreak) with
    | none =>
      -- no break in the block: the line goes on before it
      if start > 0 then linesBackFrom block file floor start read s
      else
        onward (giveEach visit (parted lineBreak read).reverse s) fun s =>
          linesBackFrom block file floor start [] s
    | some found =>
      onward (giveEach visit (parted lineBreak (read.drop (found + 1))).reverse s) fun s =>
        -- the file's first line, which no break begins
        if start = 0 then (give visit (read.take found) s).2
        else linesBackFrom block file floor start (read.take found) s
  else
    -- the line the bound begins in is whole where a break ends the byte before it
    if floor > 0 ∧ carried ≠ [] then
      if (file.drop (floor - 1)).head? = some lineBreak then (give visit carried s).2 else s
    else s
termination_by at_
decreasing_by all_goals (have _read := block.2; omega)

/-- `lines_back`: what the reader knows after it. -/
def linesBack (file : List UInt8) (bound : Nat) (s : σ) : σ :=
  linesBackFrom visit block file (file.length - bound) file.length [] s

end Back

/-! ## 2. The lines within a bound -/

/-- The lines of a file that begin at `floor` or after it, and so lie wholly after it. -/
def linesWithin (file : List UInt8) (floor : Nat) : List (List UInt8) :=
  ((placed 0 (parted lineBreak file)).filter fun line => floor ≤ line.1).map Prod.snd

/-- A line the bound cuts is not within it; one that begins with it is. -/
example : linesWithin [97, 97, 10, 98, 10] 3 = [[98], []] ∧
    linesWithin [97, 97, 10, 98, 10] 1 = [[98], []] := by decide

/-- The words of a line, if it is UTF-8 and has any. -/
def textOf (line : List UInt8) : Option String :=
  (String.fromUTF8? ⟨line.toArray⟩).filter (· ≠ "")

/-- Words given one after the other until the reader breaks. -/
def visitEach {σ : Type} (visit : EachLine σ) : List String → σ → ControlFlow × σ
  | [], s => (.goOn, s)
  | text :: texts, s =>
    match visit s text with
    | (.stop, s) => (.stop, s)
    | (.goOn, s) => visitEach visit texts s

theorem linesWithin_zero (file : List UInt8) : linesWithin file 0 = parted lineBreak file := by
  rw [linesWithin, List.filter_eq_self.2 fun line _ => decide_eq_true (Nat.zero_le line.1),
    placed_snd]

/-- **A line break cuts the lines in two**: what follows one past the bound lies within it. -/
theorem linesWithin_cut {file after : List UInt8} {floor : Nat} (h : floor ≤ file.length + 1) :
    linesWithin (file ++ lineBreak :: after) floor =
      linesWithin file floor ++ parted lineBreak after := by
  rw [linesWithin, parted_append, placed_append lineBreak, joined_parted, List.filter_append,
    List.map_append]
  congr 1
  rw [List.filter_eq_self.2 fun line hl => ?_, placed_snd]
  have begins := (placed_before lineBreak hl).1
  rw [List.length_append, List.length_singleton] at begins
  exact decide_eq_true (by omega)

/-- The line the bound begins in lies within it where a break ends the byte before it. -/
theorem linesWithin_end {file line : List UInt8} (h : lineBreak ∉ line) :
    linesWithin (file ++ line) file.length =
      if file = [] ∨ file.getLast? = some lineBreak then [line] else [] := by
  obtain ⟨whole, lines_, rest_⟩ := joined_split lineBreak file
  have clear : lineBreak ∉ (split lineBreak file).2 ++ line := fun hm =>
    (List.mem_append.1 hm).elim rest_ h
  have cut : parted lineBreak (file ++ line) =
      (split lineBreak file).1 ++ [(split lineBreak file).2 ++ line] := by
    conv_lhs => rw [← whole, List.append_assoc]
    rw [parted, split_joined lines_ clear]
  have length : file.length =
      (joined lineBreak (split lineBreak file).1).length + (split lineBreak file).2.length := by
    rw [← List.length_append, whole]
  have none_ : (placed 0 (split lineBreak file).1).filter
      (fun line => file.length ≤ line.1) = [] := by
    refine List.filter_eq_nil_iff.2 fun line hl => ?_
    have before := (placed_before lineBreak hl).2
    rw [decide_eq_true_eq]
    omega
  have ends : (file = [] ∨ file.getLast? = some lineBreak) ↔ (split lineBreak file).2 = [] := by
    by_cases he : file = []
    · rw [he]
      simp [split]
    · rw [or_iff_right he, split_snd_nil he]
  rw [linesWithin, cut, placed_append lineBreak, List.filter_append, none_, List.nil_append, placed,
    placed]
  by_cases hr : (split lineBreak file).2 = []
  · rw [if_pos (ends.2 hr), hr, List.filter_cons_of_pos]
    · rfl
    · rw [hr, List.length_nil, Nat.add_zero] at length
      rw [decide_eq_true_eq, Nat.zero_add, length]
  · rw [if_neg (fun e => hr (ends.1 e)), List.filter_cons_of_neg]
    · rfl
    · have some_ := List.length_pos_of_ne_nil hr
      rw [decide_eq_true_eq]
      omega

/-! ## 3. The loop gives them from the last back -/

section Reversed

variable {σ : Type} {visit : EachLine σ}

theorem giveEach_visits (lines : List (List UInt8)) (s : σ) :
    giveEach visit lines s = visitEach visit (lines.filterMap textOf) s := by
  induction lines generalizing s with
  | nil => rfl
  | cons line lines ih =>
    rw [giveEach, give]
    cases hl : String.fromUTF8? ⟨line.toArray⟩ with
    | none =>
      have skipped : textOf line = none := by rw [textOf, hl]; rfl
      rw [List.filterMap_cons_none skipped, ← ih]
    | some text =>
      by_cases ht : text = ""
      · have skipped : textOf line = none := by rw [textOf, hl]; simp [ht]
        rw [List.filterMap_cons_none skipped, ← ih]
        simp only [ht, ne_eq, not_true_eq_false, if_false]
      · have given : textOf line = some text := by rw [textOf, hl]; simp [ht]
        rw [List.filterMap_cons_some given, visitEach]
        simp only [ne_eq, ht, not_false_eq_true, if_true]
        cases visit s text with
        | mk flow s =>
          cases flow with
          | stop => rfl
          | goOn => exact ih s

theorem giveEach_append (lines more : List (List UInt8)) (s : σ) :
    (giveEach visit (lines ++ more) s).2 =
      onward (giveEach visit lines s) fun s => (giveEach visit more s).2 := by
  induction lines generalizing s with
  | nil => rfl
  | cons line lines ih =>
    rw [List.cons_append, giveEach, giveEach]
    cases give visit line s with
    | mk flow s =>
      cases flow with
      | stop => rfl
      | goOn => exact ih s

theorem giveEach_one (line : List UInt8) (s : σ) :
    (giveEach visit [line] s).2 = (give visit line s).2 := by
  rw [giveEach]
  cases give visit line s with
  | mk flow s => cases flow <;> rfl

theorem give_nil (s : σ) : give visit [] s = (.goOn, s) := by
  have nothing : String.fromUTF8? ⟨([] : List UInt8).toArray⟩ = some "" := by decide
  rw [give, nothing]
  simp

theorem onward_ends (given : ControlFlow × σ) : onward given (fun s => s) = given.2 := by
  obtain ⟨flow, s⟩ := given
  cases flow <;> rfl

/-- A block is read at the place it was cut from. -/
theorem read_joined {file carried : List UInt8} {start at_ : Nat} (h : start ≤ at_) :
    file.take start ++ ((file.take at_).drop start ++ carried) = file.take at_ ++ carried := by
  have before : file.take start = (file.take at_).take start := by
    rw [List.take_take, Nat.min_eq_left h]
  rw [← List.append_assoc, before, List.take_append_drop]

theorem break_at {read : List UInt8} {found : Nat}
    (h : read.findIdx? (· == lineBreak) = some found) :
    lineBreak ∉ read.take found ∧
      read = read.take found ++ lineBreak :: read.drop (found + 1) := by
  obtain ⟨lt, here, before⟩ := List.findIdx?_eq_some_iff_getElem.1 h
  refine ⟨fun hm => ?_, ?_⟩
  · obtain ⟨j, hj, e⟩ := List.getElem_of_mem hm
    rw [List.length_take] at hj
    rw [List.getElem_take] at e
    exact before j (by omega) (beq_iff_eq.2 e)
  · rw [← beq_iff_eq.1 here, ← List.drop_eq_getElem_cons lt, List.take_append_drop]

theorem ends_taken {file : List UInt8} {at_ : Nat} (some_ : at_ > 0) (inside : at_ ≤ file.length) :
    (file.take at_).getLast? = some lineBreak ↔ (file.drop (at_ - 1)).head? = some lineBreak := by
  have last : (file.take at_).getLast? = file[at_ - 1]? := by
    rw [List.getLast?_take, if_neg (by omega), List.getElem?_eq_getElem (by omega)]
    rfl
  rw [last, List.head?_drop]

theorem linesWithin_taken {file line : List UInt8} {at_ : Nat} (inside : at_ ≤ file.length)
    (h : lineBreak ∉ line) :
    linesWithin (file.take at_ ++ line) at_ =
      if file.take at_ = [] ∨ (file.take at_).getLast? = some lineBreak then [line] else [] := by
  have length : (file.take at_).length = at_ := List.length_take_of_le inside
  have ends := @linesWithin_end (file.take at_) _ h
  rwa [length] at ends

/-- **What is left of the loop gives the lines within the bound of what is before it**, with the
    carried end of the last of them. -/
theorem linesBackFrom_within (block : BlockSize) (file : List UInt8) (floor at_ : Nat)
    (carried : List UInt8) (s : σ) (inside : at_ ≤ file.length) (past : floor ≤ at_)
    (clear : lineBreak ∉ carried) (first : at_ = 0 → carried = []) :
    linesBackFrom visit block file floor at_ carried s =
      (giveEach visit (linesWithin (file.take at_ ++ carried) floor).reverse s).2 := by
  fun_induction linesBackFrom visit block file floor at_ carried s with
  | case1 at_ carried s left start read none_ begun ih =>
    -- no break in the block
    have clear' : lineBreak ∉ read := fun hm => by
      have := List.findIdx?_eq_none_iff.1 none_ _ hm
      simp at this
    rw [ih (by omega) (by omega) clear' (by omega), read_joined (by omega)]
  | case2 at_ carried s left start read none_ begun ih =>
    have zero : start = 0 := by omega
    have floor_ : floor = 0 := by omega
    have clear' : lineBreak ∉ read := fun hm => by
      have := List.findIdx?_eq_none_iff.1 none_ _ hm
      simp at this
    have nothing : file.take start = [] := by rw [zero, List.take_zero]
    have whole : read = file.take at_ ++ carried := by
      have joined : file.take start ++ read = file.take at_ ++ carried := read_joined (by omega)
      rwa [nothing] at joined
    have rest : ∀ s', linesBackFrom visit block file floor start [] s' = s' := by
      intro s'
      rw [ih s' (by omega) (by omega) List.not_mem_nil fun _ => rfl, nothing, floor_,
        List.nil_append, linesWithin_zero, parted_of_not_mem List.not_mem_nil,
        List.reverse_singleton, giveEach_one, give_nil]
    simp only [rest]
    rw [onward_ends, ← whole, floor_, linesWithin_zero]
  | case3 at_ carried s left start read found here ih =>
    obtain ⟨clear', cut⟩ := break_at here
    have whole : file.take at_ ++ carried =
        (file.take start ++ read.take found) ++ lineBreak :: read.drop (found + 1) := by
      rw [List.append_assoc, ← cut]
      exact (read_joined (by omega)).symm
    have begins : floor ≤ (file.take start ++ read.take found).length + 1 := by
      rw [List.length_append, List.length_take]
      omega
    rw [whole, linesWithin_cut begins, List.reverse_append, giveEach_append]
    congr 1
    funext s'
    by_cases zero : start = 0
    · have floor_ : floor = 0 := by omega
      have nothing : file.take start = [] := by rw [zero, List.take_zero]
      rw [if_pos zero, nothing, List.nil_append, floor_, linesWithin_zero,
        parted_of_not_mem clear', List.reverse_singleton, giveEach_one]
    · rw [if_neg zero, ih s' (by omega) (by omega) clear' fun e => absurd e zero]
  | case4 at_ carried s left both here =>
    obtain rfl : at_ = floor := by omega
    have last := ends_taken both.1 inside |>.2 here
    rw [linesWithin_taken inside clear, if_pos (Or.inr last), List.reverse_singleton, giveEach_one]
  | case5 at_ carried s left both here =>
    obtain rfl : at_ = floor := by omega
    have last := fun e => here (ends_taken both.1 inside |>.1 e)
    have some_ : file.take at_ ≠ [] := fun e => by
      have length := congrArg List.length e
      rw [List.length_take, List.length_nil] at length
      omega
    rw [linesWithin_taken inside clear, if_neg fun e => e.elim some_ last]
    rfl
  | case6 at_ carried s left both =>
    obtain rfl : at_ = floor := by omega
    have nothing : carried = [] := by
      by_contra some_
      exact some_ (first (by_contra fun k => both ⟨by omega, some_⟩))
    rw [linesWithin_taken inside clear, nothing]
    split
    · rw [List.reverse_singleton, giveEach_one, give_nil]
    · rfl

/-- **Lines from the end are the file's lines reversed**: the reader is given each line that is
    UTF-8, has words and lies wholly within the last bytes, from the last back, until it breaks. -/
theorem lines_back_reversed (file : List UInt8) (bound : Nat) (s : σ) :
    linesBack visit file bound s =
      (visitEach visit ((linesWithin file (file.length - bound)).reverse.filterMap textOf) s).2 := by
  have back := @linesBackFrom_within _ visit block file (file.length - bound) file.length []
    s le_rfl (by omega) List.not_mem_nil fun _ => rfl
  rw [List.take_length, List.append_nil, giveEach_visits] at back
  exact back

end Reversed

end Harness
end ConsensFlow
