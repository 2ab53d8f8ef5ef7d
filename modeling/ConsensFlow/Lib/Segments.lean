/-
  File:      ConsensFlow/Lib/Segments.lean
  Subject:   PATHS AS STACKS OF SEGMENTS: what a text of segments comes to where one of them is
             for the place itself and one for the place above.

  * `Spelling` -- the separators, and the two segments;
  * `keep`, `resolve` -- a segment on the stack, and the text that is left;
  * `Kept` -- what a stack holds: no segment that goes away, and those for above only at its bottom;
    `keep_kept`, `foldl_kept`;
  * **`resolve_again`** -- a text that was resolved is left as it is.
-/
import Mathlib

namespace Lib.Segments

variable {α : Type}

/-- How paths are written: the separator between the segments of a resolved one, the characters
    that separate those of any, the segment for the place itself and the one for the place above. -/
structure Spelling (α : Type) where
  separator : α
  separates : α → Bool
  here : List α
  up : List α
  own : separates separator = true
  up_some : up ≠ []
  up_whole : ∀ a ∈ up, separates a = false
  up_other : up ≠ here

namespace Spelling

variable (k : Spelling α) {above : Bool} {stack : List (List α)}

/-! ## 1. Stacks of segments -/

def join (stack : List (List α)) : List α := [k.separator].intercalate stack

/-- A stack of whole segments, those for above at its bottom and only where they may be kept. -/
structure Kept (above : Bool) (stack : List (List α)) : Prop where
  whole : ∀ segment ∈ stack, segment ≠ [] ∧ segment ≠ k.here ∧ ∀ a ∈ segment, k.separates a = false
  ups : ∀ before after, stack = before ++ k.up :: after →
    above = true ∧ ∀ segment ∈ before, segment = k.up

theorem kept_nil : k.Kept above [] where
  whole _ one := absurd one List.not_mem_nil
  ups before after same := by
    have long := congrArg List.length same
    simp at long

theorem Kept.before {before after : List (List α)} (kept : k.Kept above (before ++ after)) :
    k.Kept above before where
  whole segment one := kept.whole segment (List.mem_append_left _ one)
  ups before' after' same := kept.ups before' (after' ++ after) (by
    rw [same, List.append_assoc, List.cons_append])

/-- Another segment that is not for above may be kept. -/
theorem Kept.concat {segment : List α} (kept : k.Kept above stack)
    (whole : segment ≠ [] ∧ segment ≠ k.here ∧ ∀ a ∈ segment, k.separates a = false)
    (other : segment ≠ k.up) : k.Kept above (stack ++ [segment]) where
  whole s one := by
    rcases List.mem_append.1 one with one | one
    · exact kept.whole s one
    · rw [List.mem_singleton.1 one]
      exact whole
  ups before after same := by
    rcases List.eq_nil_or_concat after with rfl | ⟨after, last, rfl⟩
    · exact absurd (List.append_inj' same rfl).2 (by simp [other])
    · rw [List.concat_eq_append, ← List.cons_append, ← List.append_assoc] at same
      exact kept.ups before after (List.append_inj' same rfl).1

/-- One for above may be kept on others for above. -/
theorem Kept.concat_up (kept : k.Kept above stack) (top : ∀ s, stack.getLast? = some s → s = k.up)
    (may : above = true) : k.Kept above (stack ++ [k.up]) where
  whole s one := by
    rcases List.mem_append.1 one with one | one
    · exact kept.whole s one
    · rw [List.mem_singleton.1 one]
      exact ⟨k.up_some, k.up_other, k.up_whole⟩
  ups before after same := by
    have all : ∀ segment ∈ stack, segment = k.up := by
      rcases List.eq_nil_or_concat stack with rfl | ⟨below, last, rfl⟩
      · exact fun _ one => absurd one List.not_mem_nil
      · rw [List.concat_eq_append] at kept top ⊢
        have last_ : last = k.up := top last List.getLast?_concat
        have ups := (kept.ups below [] (by rw [last_])).2
        intro segment one
        rcases List.mem_append.1 one with one | one
        · exact ups segment one
        · rw [List.mem_singleton.1 one, last_]
    refine ⟨may, fun segment one => ?_⟩
    have in_ : segment ∈ stack ++ [k.up] := by
      rw [same]
      exact List.mem_append_left _ one
    rcases List.mem_append.1 in_ with one | one
    · exact all segment one
    · exact List.mem_singleton.1 one

theorem splitOnP_join (some_ : stack ≠ []) (whole : ∀ s ∈ stack, ∀ a ∈ s, k.separates a = false) :
    (k.join stack).splitOnP k.separates = stack := by
  induction stack with
  | nil => exact absurd rfl some_
  | cons segment more ih =>
    have clear := whole segment List.mem_cons_self
    cases more with
    | nil =>
      rw [join, List.intercalate_singleton, List.splitOnP_eq_singleton clear]
    | cons next more =>
      rw [join, List.intercalate_cons_cons, List.append_assoc, List.singleton_append,
        List.splitOnP_append_cons_of_forall_mem clear k.separator k.own]
      exact congrArg (segment :: ·) (ih (List.cons_ne_nil _ _)
        fun s one => whole s (List.mem_cons_of_mem _ one))

/-- The segments of a path are whole and its own. -/
theorem splitOnP_whole (test : α → Bool) (path : List α) :
    ∀ segment ∈ path.splitOnP test, ∀ a ∈ segment, test a = false ∧ a ∈ path := by
  induction path with
  | nil => simp
  | cons a path ih =>
    have later {segment : List α} (one : segment ∈ path.splitOnP test) :
        ∀ b ∈ segment, test b = false ∧ b ∈ a :: path := fun b in_ =>
      ⟨(ih segment one b in_).1, List.mem_cons_of_mem _ (ih segment one b in_).2⟩
    rw [List.splitOnP_cons_eq_if_modifyHead]
    split
    · intro segment one
      rcases List.mem_cons.1 one with rfl | one
      · exact fun _ one => absurd one List.not_mem_nil
      · exact later one
    · rename_i other
      cases parts : path.splitOnP test with
      | nil => exact absurd parts (List.splitOnP_ne_nil _ _)
      | cons first parts' =>
        rw [parts] at later
        intro segment one
        rw [List.modifyHead_cons] at one
        rcases List.mem_cons.1 one with rfl | one
        · intro b in_
          rcases List.mem_cons.1 in_ with rfl | in_
          · exact ⟨Bool.eq_false_iff.2 other, List.mem_cons_self⟩
          · exact later List.mem_cons_self _ in_
        · exact later (List.mem_cons_of_mem _ one)

theorem mem_join {a : α} (one : a ∈ k.join stack) :
    a = k.separator ∨ ∃ segment ∈ stack, a ∈ segment := by
  induction stack with
  | nil => exact absurd one List.not_mem_nil
  | cons first more ih =>
    unfold join at ih one
    by_cases none_ : more = []
    · rw [none_, List.intercalate_singleton] at one
      exact .inr ⟨first, List.mem_cons_self, one⟩
    · rw [List.intercalate_cons_of_ne_nil none_] at one
      rcases List.mem_append.1 one with one | one
      · rcases List.mem_append.1 one with one | one
        · exact .inr ⟨first, List.mem_cons_self, one⟩
        · exact .inl (List.mem_singleton.1 one)
      · exact (ih one).imp id fun ⟨s, in_, a_⟩ => ⟨s, List.mem_cons_of_mem _ in_, a_⟩

/-- A kept stack, joined, does not begin with a separator. -/
theorem Kept.head {a : α} {rest : List α} (kept : k.Kept above stack)
    (begins : k.join stack = a :: rest) : k.separates a = false := by
  cases stack with
  | nil => cases begins
  | cons first more =>
    obtain ⟨some_, -, whole⟩ := kept.whole first List.mem_cons_self
    cases first with
    | nil => exact absurd rfl some_
    | cons b first =>
      have head : (k.join ((b :: first) :: more)).head? = some b := by
        unfold join
        by_cases none_ : more = []
        · rw [none_, List.intercalate_singleton]
          rfl
        · rw [List.intercalate_cons_of_ne_nil none_]
          rfl
      rw [begins] at head
      cases head
      exact whole _ List.mem_cons_self

/-! ## 2. A path on the stack -/

variable [DecidableEq α]

/-- The stack after a segment: nothing is kept of an empty one and of the one for the place itself;
    the one for above takes the last segment off, unless that is one itself or there is none. -/
def keep (above : Bool) (stack : List (List α)) (segment : List α) : List (List α) :=
  if segment = [] ∨ segment = k.here then stack
  else if segment = k.up then
    match stack.getLast? with
    | some top =>
      if top = k.up then if above then stack ++ [k.up] else stack
      else stack.dropLast
    | none => if above then [k.up] else []
  else stack ++ [segment]

/-- What a path comes to. -/
def resolve (above : Bool) (path : List α) : List α :=
  k.join ((path.splitOnP k.separates).foldl (k.keep above) [])

/-- **A segment leaves a stack kept.** -/
theorem keep_kept {segment : List α} (kept : k.Kept above stack)
    (whole : ∀ a ∈ segment, k.separates a = false) : k.Kept above (k.keep above stack segment) := by
  unfold keep
  split
  · exact kept
  · rename_i stays
    obtain ⟨some_, other⟩ := not_or.1 stays
    split
    · split
      · rename_i top last
        split
        · rename_i up
          split
          · rename_i may
            refine kept.concat_up k (fun s one => ?_) may
            rw [last] at one
            rw [← Option.some.inj one, up]
          · exact kept
        · rename_i other
          rw [← List.dropLast_append_getLast? top last] at kept
          exact kept.before
      · split
        · rename_i none_ may
          exact kept_nil k |>.concat_up k (fun s one => by cases one) may
        · exact kept_nil k
    · rename_i other'
      exact kept.concat k ⟨some_, other, whole⟩ other'

theorem foldl_keep_kept (segments : List (List α)) (kept : k.Kept above stack)
    (whole : ∀ segment ∈ segments, ∀ a ∈ segment, k.separates a = false) :
    k.Kept above (segments.foldl (k.keep above) stack) := by
  induction segments generalizing stack with
  | nil => exact kept
  | cons segment segments ih =>
    exact ih (k.keep_kept kept (whole segment List.mem_cons_self))
      fun s one => whole s (List.mem_cons_of_mem _ one)

/-! ## 3. A resolved path again -/

theorem keep_self {segment : List α} (kept : k.Kept above (stack ++ [segment])) :
    k.keep above stack segment = stack ++ [segment] := by
  obtain ⟨some_, other, -⟩ := kept.whole segment (List.mem_append_right _ List.mem_cons_self)
  unfold keep
  rw [if_neg (not_or.2 ⟨some_, other⟩)]
  by_cases up : segment = k.up
  · rw [if_pos up]
    obtain ⟨may, ups⟩ := kept.ups stack [] (by rw [up])
    subst up
    split
    · rename_i top last
      rw [if_pos (ups top (List.mem_of_getLast? last)), if_pos may]
    · rename_i none_
      rw [List.getLast?_eq_none_iff.1 none_, if_pos may, List.nil_append]
  · rw [if_neg up]

theorem foldl_kept (kept : k.Kept above stack) : stack.foldl (k.keep above) [] = stack := by
  induction stack using List.reverseRecOn with
  | nil => rfl
  | append_singleton below segment ih =>
    rw [List.foldl_append, ih (kept.before k), List.foldl_cons, List.foldl_nil, k.keep_self kept]

/-- The stack a path leaves. -/
theorem resolved_kept (path : List α) :
    k.Kept above ((path.splitOnP k.separates).foldl (k.keep above) []) :=
  k.foldl_keep_kept _ (kept_nil k) fun segment one a in_ =>
    (splitOnP_whole _ path segment one a in_).1

theorem mem_keep {segment s : List α} (one : s ∈ k.keep above stack segment) :
    s ∈ stack ∨ s = segment := by
  unfold keep at one
  split at one
  · exact .inl one
  · split at one
    · rename_i up
      split at one
      · split at one
        · split at one
          · rw [up]
            exact (List.mem_append.1 one).imp id List.mem_singleton.1
          · exact .inl one
        · exact .inl (List.dropLast_subset _ one)
      · split at one
        · rw [up]
          exact .inr (List.mem_singleton.1 one)
        · exact absurd one List.not_mem_nil
    · exact (List.mem_append.1 one).imp id List.mem_singleton.1

theorem mem_foldl_keep {s : List α} (segments : List (List α))
    (one : s ∈ segments.foldl (k.keep above) stack) : s ∈ stack ∨ s ∈ segments := by
  induction segments generalizing stack with
  | nil => exact .inl one
  | cons segment segments ih =>
    rcases ih one with one | one
    · exact (k.mem_keep one).imp id fun same => by rw [same]; exact List.mem_cons_self
    · exact .inr (List.mem_cons_of_mem _ one)

/-- What a path comes to is of its own characters, and separators. -/
theorem mem_resolve {a : α} {path : List α} (one : a ∈ k.resolve above path) :
    a = k.separator ∨ a ∈ path := by
  refine (k.mem_join one).imp id ?_
  rintro ⟨segment, in_, one⟩
  rcases k.mem_foldl_keep _ in_ with none_ | in_
  · exact absurd none_ List.not_mem_nil
  · exact (splitOnP_whole _ path segment in_ a one).2

/-- And it does not begin with one. -/
theorem head_resolve {a : α} {path rest : List α} (begins : k.resolve above path = a :: rest) :
    k.separates a = false := (k.resolved_kept path).head k begins

/-- **What a path comes to is left as it is.** -/
theorem resolve_again (path : List α) : k.resolve above (k.resolve above path) =
    k.resolve above path := by
  have kept : k.Kept above _ := k.resolved_kept path
  conv_lhs => rw [resolve]
  rw [resolve]
  generalize (path.splitOnP k.separates).foldl (k.keep above) [] = stack at kept ⊢
  rcases List.eq_nil_or_concat stack with rfl | ⟨below, segment, rfl⟩
  · show k.join (([[]] : List (List α)).foldl (k.keep above) []) = k.join []
    rw [List.foldl_cons, List.foldl_nil, keep, if_pos (.inl rfl)]
  · rw [k.splitOnP_join (by simp) (fun s one => (kept.whole s one).2.2), k.foldl_kept kept]

end Spelling

end Lib.Segments
