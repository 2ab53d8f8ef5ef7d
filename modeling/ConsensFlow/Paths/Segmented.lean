/-
  File:      ConsensFlow/Paths/Segmented.lean
  Subject:   A PATH WITHOUT ITS DOTS (`cf-base`: `path.rs`: `normalize_string`), for both
             separators.

  The source walks the bytes of the path and keeps indexes of bytes; its `slice` takes the empty
  text where an index falls inside a character. Here `slice` is `none` there, and so is what is
  made with it.

  * `Walk`, `normalizeString` -- the loop and what it keeps;
  * `Reads` -- where the loop stands: the stack of segments in `res`, and the segment it is in;
    `read_character`, `read_separator`, `read_end`: what one character does;
  * **`normalizeString_segments`** -- it is the stack of segments, and no cut is in a character.
-/
import ConsensFlow.Lib.Utf8
import ConsensFlow.Lib.Segments
import ConsensFlow.Lib.Text

namespace Paths

open Lib.Utf8 Lib.Segments

/-! ## 1. The loop -/

def isPathSeparator (code : Option UInt8) : Bool := code == some 0x2f || code == some 0x5c

def isPosixPathSeparator (code : Option UInt8) : Bool := code == some 0x2f

/-- What the loop keeps: the path so far and the bytes of its last segment, where the segment it
    is in starts, the dots of that one so far (-1 once it holds anything else), and the byte. -/
structure Walk where
  res : List Char := []
  lastSegmentLength : Nat := 0
  segmentStart : Nat := 0
  dots : Int := 0
  code : Option UInt8 := none

namespace Walk

variable (separator : Char) (above : Bool)

/-- Another segment, of `length` bytes. -/
def push (segment : List Char) (length : Nat) (w : Walk) : Walk :=
  { w with
    res := (if w.res = [] then [] else w.res ++ [separator]) ++ segment
    lastSegmentLength := length }

def clear (w : Walk) : Walk := { w with res := [], lastSegmentLength := 0 }

/-- Without the last segment. -/
def pop (w : Walk) : Option Walk :=
  if size w.res < w.lastSegmentLength + 1 then some w.clear
  else do
    let res ← slice w.res 0 (size w.res - (w.lastSegmentLength + 1))
    some { w with
      res := res
      lastSegmentLength := size res - ((rfind res separator).map (· + 1)).getD 0 }

/-- The segment `..`, where the path may go above its root. -/
def climb (w : Walk) : Walk := if above then w.push separator ['.', '.'] 2 else w

/-- A segment `..` of the path. -/
def parent (w : Walk) : Option Walk :=
  if w.lastSegmentLength ≠ 2 ∨ ¬['.', '.'] <:+ w.res then
    if 2 < (w.res.map Lib.Text.utf16Width).sum then w.pop separator
    else if w.res ≠ [] then some w.clear
    else some (w.climb separator above)
  else some (w.climb separator above)

/-- The segment that ends at a separator. -/
def segment (path : List Char) (i : Nat) (w : Walk) : Option Walk :=
  if w.segmentStart = i ∨ w.dots = 1 then some w
  else if w.dots = 2 then w.parent separator above
  else (slice path w.segmentStart i).map fun segment =>
    w.push separator segment (i - w.segmentStart)

/-- One byte of the path, or the separator after its end. -/
def read (isPathSeparator : Option UInt8 → Bool) (path : List Char) (i : Nat) (w : Walk) :
    Option Walk :=
  if isPathSeparator w.code then
    (w.segment separator above path i).map fun w => { w with segmentStart := i + 1, dots := 0 }
  else if w.code = some 0x2e ∧ w.dots ≠ -1 then some { w with dots := w.dots + 1 }
  else some { w with dots := -1 }

/-- One turn of the loop. -/
def step (isPathSeparator : Option UInt8 → Bool) (path : List Char) (w : Walk) (i : Nat) :
    Option Walk :=
  if i < size path then
    { w with code := codeAt path i }.read separator above isPathSeparator path i
  else if isPathSeparator w.code then some w
  else { w with code := some 0x2f }.read separator above isPathSeparator path i

end Walk

/-- The path with its `.` and `..` resolved, `none` if it were cut inside a character. -/
def normalizeString (path : List Char) (above : Bool) (separator : Char)
    (isPathSeparator : Option UInt8 → Bool) : Option (List Char) :=
  ((List.range' 0 (size path + 1)).foldlM (Walk.step separator above isPathSeparator path)
    {}).map Walk.res

/-! ## 2. Segments -/

theorem mem_dots {a : Char} (one : a ∈ ['.', '.']) : a = '.' := by
  simpa using one

/-- How POSIX paths are written. -/
def posix : Spelling Char where
  separator := '/'
  separates c := c == '/'
  here := ['.']
  up := ['.', '.']
  own := by decide
  up_some := by decide
  up_whole a one := by
    rw [mem_dots one]
    rfl
  up_other := by decide

/-- How Windows paths are. -/
def windows : Spelling Char where
  separator := '\\'
  separates c := c == '/' || c == '\\'
  here := ['.']
  up := ['.', '.']
  own := by decide
  up_some := by decide
  up_whole a one := by
    rw [mem_dots one]
    rfl
  up_other := by decide

/-- A test of bytes is for a spelling's separators, all of one byte, the slash among them. -/
structure Tests (k : Spelling Char) (isPathSeparator : Option UInt8 → Bool) : Prop where
  here : k.here = ['.']
  up : k.up = ['.', '.']
  ascii : ∀ c, k.separates c = true → IsAscii c
  nothing : isPathSeparator none = false
  ended : isPathSeparator (some 0x2f) = true
  other : ∀ b : UInt8, 0x80 ≤ b.toNat → isPathSeparator (some b) = false
  same : ∀ c, IsAscii c → isPathSeparator (some (UInt8.ofNat c.toNat)) = k.separates c

theorem ofNat_eq {c d : Char} (hc : IsAscii c) (hd : IsAscii d) :
    UInt8.ofNat c.toNat = UInt8.ofNat d.toNat ↔ c = d := by
  have low : c.toNat < 0x80 := hc
  have low' : d.toNat < 0x80 := hd
  constructor
  · intro same
    have same := congrArg UInt8.toNat same
    rw [UInt8.toNat_ofNat', UInt8.toNat_ofNat', Nat.mod_eq_of_lt (by omega),
      Nat.mod_eq_of_lt (by omega)] at same
    exact Char.toNat_inj.1 same
  · rintro rfl
    rfl

theorem high_ne {b : UInt8} {d : Char} (high : 0x80 ≤ b.toNat) (ascii : IsAscii d) :
    b ≠ UInt8.ofNat d.toNat := by
  have low : d.toNat < 0x80 := ascii
  rintro rfl
  rw [UInt8.toNat_ofNat'] at high
  omega

theorem posix_tests : Tests posix isPosixPathSeparator where
  here := rfl
  up := rfl
  ascii c sep := by
    rw [beq_iff_eq.1 sep]
    decide
  nothing := rfl
  ended := rfl
  other b high := by
    have slash := high_ne high (d := '/') (by decide)
    exact beq_eq_false_iff_ne.2 fun same => slash (Option.some.inj same)
  same c ascii := by
    rw [Bool.eq_iff_iff]
    refine beq_iff_eq.trans (Option.some_inj.trans ?_)
    exact (ofNat_eq ascii (d := '/') (by decide)).trans beq_iff_eq.symm

theorem windows_tests : Tests windows isPathSeparator where
  here := rfl
  up := rfl
  ascii c sep := by
    rcases Bool.or_eq_true_iff.1 sep with slash | back
    · rw [beq_iff_eq.1 slash]
      decide
    · rw [beq_iff_eq.1 back]
      decide
  nothing := rfl
  ended := rfl
  other b high := by
    have slash := high_ne high (d := '/') (by decide)
    have back := high_ne high (d := '\\') (by decide)
    exact Bool.or_eq_false_iff.2 ⟨beq_eq_false_iff_ne.2 fun same => slash (Option.some.inj same),
      beq_eq_false_iff_ne.2 fun same => back (Option.some.inj same)⟩
  same c ascii := by
    rw [Bool.eq_iff_iff]
    refine Bool.or_eq_true_iff.trans (Iff.trans ?_ Bool.or_eq_true_iff.symm)
    exact or_congr
      (beq_iff_eq.trans (Option.some_inj.trans
        ((ofNat_eq ascii (d := '/') (by decide)).trans beq_iff_eq.symm)))
      (beq_iff_eq.trans (Option.some_inj.trans
        ((ofNat_eq ascii (d := '\\') (by decide)).trans beq_iff_eq.symm)))

/-! ## 3. The stack in `res` -/

section

variable {k : Spelling Char} {above : Bool} {stack : List (List Char)} {segment : List Char}

theorem join_concat (some_ : stack ≠ []) (segment : List Char) :
    k.join (stack ++ [segment]) = k.join stack ++ k.separator :: segment := by
  induction stack with
  | nil => exact absurd rfl some_
  | cons first more ih =>
    unfold Spelling.join at ih ⊢
    cases more with
    | nil =>
      rw [List.cons_append, List.nil_append, List.intercalate_cons_cons,
        List.intercalate_singleton, List.intercalate_singleton, List.append_assoc]
      rfl
    | cons next more =>
      rw [List.cons_append, List.intercalate_cons_of_ne_nil (by simp), ih (List.cons_ne_nil _ _),
        List.intercalate_cons_of_ne_nil (List.cons_ne_nil _ _)]
      simp only [List.append_assoc]

theorem join_eq_nil (whole : ∀ s ∈ stack, s ≠ []) : k.join stack = [] ↔ stack = [] := by
  rcases List.eq_nil_or_concat stack with rfl | ⟨below, top, rfl⟩
  · exact iff_of_true rfl rfl
  · rw [List.concat_eq_append] at whole ⊢
    have top_ := whole top (List.mem_append_right _ List.mem_cons_self)
    refine iff_of_false (fun none_ => ?_) (by simp)
    by_cases one : below = []
    · rw [one, List.nil_append, Spelling.join, List.intercalate_singleton] at none_
      exact top_ none_
    · rw [join_concat one] at none_
      exact absurd none_ (by simp)

theorem length_le_utf16 (text : List Char) : text.length ≤ (text.map Lib.Text.utf16Width).sum := by
  induction text with
  | nil => exact Nat.le_refl _
  | cons c text ih =>
    have one : 1 ≤ Lib.Text.utf16Width c := by
      unfold Lib.Text.utf16Width
      split <;> omega
    rw [List.map_cons, List.sum_cons, List.length_cons]
    omega

/-- Two segments are more than two UTF-16 units. -/
theorem two_lt_utf16 (whole : ∀ s ∈ stack, s ≠ []) (some_ : stack ≠ []) (one : segment ≠ []) :
    2 < ((k.join (stack ++ [segment])).map Lib.Text.utf16Width).sum := by
  refine Nat.lt_of_lt_of_le ?_ (length_le_utf16 _)
  have first := List.length_pos_iff.2 (mt (join_eq_nil (k := k) whole).1 some_)
  have last := List.length_pos_iff.2 one
  rw [join_concat some_, List.length_append, List.length_cons]
  omega

/-- `res` and the length of its last segment, for a stack. -/
def Walk.holding (k : Spelling Char) (stack : List (List Char)) (w : Walk) : Walk :=
  { w with res := k.join stack, lastSegmentLength := size (stack.getLast?.getD []) }

variable {isSep : Option UInt8 → Bool} (tests : Tests k isSep) (w : Walk)

theorem push_holding (whole : ∀ s ∈ stack, s ≠ []) :
    (w.holding k stack).push k.separator segment (size segment) =
      w.holding k (stack ++ [segment]) := by
  unfold Walk.holding Walk.push
  have res : (if k.join stack = [] then [] else k.join stack ++ [k.separator]) ++ segment =
      k.join (stack ++ [segment]) := by
    by_cases none_ : stack = []
    · rw [none_, List.nil_append]
      exact List.intercalate_singleton.symm
    · rw [if_neg (mt (join_eq_nil whole).1 none_), join_concat none_, List.append_assoc]
      rfl
  rw [List.getLast?_concat]
  exact congrArg (fun res => { w with res := res, lastSegmentLength := size segment }) res

theorem separator_size (tests : Tests k isSep) : k.separator.utf8Size = 1 :=
  utf8Size_ascii (tests.ascii _ k.own)

/-- The last segment's length, read off its separator. -/
theorem last_length (kept : k.Kept above (stack ++ [segment])) (tests : Tests k isSep) :
    size (k.join (stack ++ [segment])) -
      ((rfind (k.join (stack ++ [segment])) k.separator).map (· + 1)).getD 0 = size segment := by
  have out : k.separator ∉ segment := by
    intro one
    have apart := (kept.whole segment (List.mem_append_right _ List.mem_cons_self)).2.2 _ one
    rw [k.own] at apart
    cases apart
  by_cases none_ : stack = []
  · rw [none_, List.nil_append, Spelling.join, List.intercalate_singleton, rfind_none out]
    exact Nat.sub_zero _
  · rw [join_concat none_, rfind_append _ out, size_append, size_cons, separator_size tests]
    show size (k.join stack) + (1 + size segment) - (size (k.join stack) + 1) = size segment
    omega

/-- **The last segment is taken off**, by its length. -/
theorem pop_holding (kept : k.Kept above (stack ++ [segment])) (tests : Tests k isSep) :
    (w.holding k (stack ++ [segment])).pop k.separator = some (w.holding k stack) := by
  have last : (w.holding k (stack ++ [segment])).lastSegmentLength = size segment := by
    show size ((stack ++ [segment]).getLast?.getD []) = _
    rw [List.getLast?_concat]
    rfl
  unfold Walk.pop
  rw [last]
  show (if size (k.join (stack ++ [segment])) < size segment + 1 then _ else _) = _
  rcases List.eq_nil_or_concat stack with rfl | ⟨below, top, rfl⟩
  · rw [List.nil_append, Spelling.join, List.intercalate_singleton, if_pos (Nat.lt_succ_self _)]
    rfl
  · rw [List.concat_eq_append] at kept ⊢
    have some_ : below ++ [top] ≠ [] := by simp
    have width : size (k.join (below ++ [top] ++ [segment])) =
        size (k.join (below ++ [top])) + (1 + size segment) := by
      rw [join_concat some_, size_append, size_cons, separator_size tests]
    have at_ : size (k.join (below ++ [top] ++ [segment])) - (size segment + 1) =
        size (k.join (below ++ [top])) := by omega
    have cut_ : slice (k.join (below ++ [top] ++ [segment])) 0 (size (k.join (below ++ [top]))) =
        some (k.join (below ++ [top])) := by
      rw [join_concat some_]
      exact slice_upto _ _
    rw [if_neg (by omega)]
    show (slice (k.join (below ++ [top] ++ [segment])) 0
      (size (k.join (below ++ [top] ++ [segment])) - (size segment + 1))).bind _ = _
    rw [at_, cut_, Option.bind_some, last_length kept.before tests]
    simp only [Walk.holding, List.getLast?_concat, Option.getD_some]

/-- Whether the last segment is the one for above. -/
theorem top_is_up (kept : k.Kept above (stack ++ [segment])) (tests : Tests k isSep) :
    size segment = 2 ∧ ['.', '.'] <:+ k.join (stack ++ [segment]) ↔ segment = k.up := by
  have ends : segment <:+ k.join (stack ++ [segment]) := by
    by_cases none_ : stack = []
    · rw [none_, List.nil_append, Spelling.join, List.intercalate_singleton]
    · rw [join_concat none_]
      exact (List.suffix_cons _ _).trans (List.suffix_append _ _)
  rw [tests.up]
  constructor
  · rintro ⟨two, dots⟩
    have short : segment.length ≤ 2 := by
      have long : ∀ text : List Char, text.length ≤ size text := by
        intro text
        induction text with
        | nil => exact Nat.le_refl _
        | cons c text ih =>
          have one := c.utf8Size_pos
          rw [size_cons, List.length_cons]
          omega
      exact (long segment).trans (Nat.le_of_eq two)
    have within := List.suffix_of_suffix_length_le ends dots short
    rcases List.suffix_cons_iff.1 within with whole | within
    · exact whole
    · have less := within.sublist.length_le
      exfalso
      rcases List.suffix_cons_iff.1 within with one | none_
      · rw [one] at two
        exact absurd two (by decide)
      · rw [List.suffix_nil.1 none_] at two
        exact absurd two (by decide)
  · rintro rfl
    exact ⟨by decide, ends⟩

theorem climb_holding (whole : ∀ s ∈ stack, s ≠ []) (tests : Tests k isSep) :
    (w.holding k stack).climb k.separator above =
      w.holding k (if above then stack ++ [k.up] else stack) := by
  unfold Walk.climb
  cases above with
  | false => rfl
  | true =>
    have up := @push_holding k stack k.up w whole
    rw [tests.up] at up ⊢
    exact up

/-- **A segment for above** does to `res` what it does to the stack. -/
theorem parent_holding (kept : k.Kept above stack) (tests : Tests k isSep) :
    (w.holding k stack).parent k.separator above =
      some (w.holding k (k.keep above stack k.up)) := by
  have whole : ∀ s ∈ stack, s ≠ [] := fun s one => (kept.whole s one).1
  unfold Walk.parent Spelling.keep
  rw [if_neg (not_or.2 ⟨k.up_some, k.up_other⟩), if_pos rfl, climb_holding w whole tests]
  rcases List.eq_nil_or_concat stack with rfl | ⟨below, top, rfl⟩
  · have short : (w.holding k []).lastSegmentLength ≠ 2 := by
      show size [] ≠ 2
      decide
    have narrow : ¬2 < ((w.holding k []).res.map Lib.Text.utf16Width).sum := Nat.not_lt_zero 2
    have none_ : ¬(w.holding k []).res ≠ [] := not_not.2 rfl
    rw [if_pos (.inl short), if_neg narrow, if_neg none_]
    rfl
  · rw [List.concat_eq_append] at kept whole ⊢
    have up := top_is_up kept tests
    have last : size ((below ++ [top]).getLast?.getD []) = size top := by
      rw [List.getLast?_concat]
      rfl
    show (if size ((below ++ [top]).getLast?.getD []) ≠ 2 ∨
      ¬['.', '.'] <:+ k.join (below ++ [top]) then _ else _) = _
    rw [last, List.getLast?_concat]
    dsimp only
    by_cases top_ : top = k.up
    · obtain ⟨two, dots⟩ := up.2 top_
      rw [if_neg (by simp [two, dots]), if_pos top_]
    · have other : size top ≠ 2 ∨ ¬['.', '.'] <:+ k.join (below ++ [top]) := by
        by_contra same
        push Not at same
        exact top_ (up.1 same)
      rw [if_pos other, if_neg top_, List.dropLast_concat]
      by_cases wide : 2 < ((k.join (below ++ [top])).map Lib.Text.utf16Width).sum
      · exact (if_pos wide).trans (pop_holding w kept tests)
      · refine (if_neg wide).trans ?_
        have alone : below = [] := by
          by_contra some_
          exact wide (two_lt_utf16 (fun s one => whole s (List.mem_append_left _ one)) some_
            (whole top (List.mem_append_right _ List.mem_cons_self)))
        subst alone
        exact if_pos (mt (join_eq_nil (k := k) whole).1 (by simp))

/-- What the loop counts of a segment: its dots, or -1 where it holds anything else. -/
def dotsOf (segment : List Char) : Int :=
  if ∀ c ∈ segment, c = '.' then segment.length else -1

theorem dotsOf_eq {n : Nat} : dotsOf segment = n ↔ segment = List.replicate n '.' := by
  unfold dotsOf
  constructor
  · intro counted
    split at counted
    · rename_i all
      rw [← Int.ofNat.inj counted]
      exact List.eq_replicate_iff.2 ⟨rfl, all⟩
    · omega
  · rintro rfl
    rw [if_pos fun c one => List.eq_of_mem_replicate one, List.length_replicate]

theorem dotsOf_concat (c : Char) : dotsOf (segment ++ [c]) =
    if c = '.' ∧ dotsOf segment ≠ -1 then dotsOf segment + 1 else -1 := by
  unfold dotsOf
  by_cases all : ∀ d ∈ segment, d = '.'
  · rw [if_pos all]
    by_cases dot : c = '.'
    · have all' : ∀ d ∈ segment ++ [c], d = '.' := by
        intro d one
        rcases List.mem_append.1 one with one | one
        · exact all d one
        · rw [List.mem_singleton.1 one, dot]
      rw [if_pos all', if_pos ⟨dot, by omega⟩, List.length_append]
      rfl
    · rw [if_neg fun all' => dot (all' c (List.mem_append_right _ List.mem_cons_self)),
        if_neg fun both => dot both.1]
  · rw [if_neg all, if_neg fun all' => all fun d one => all' d (List.mem_append_left _ one),
      if_neg fun both => both.2 rfl]

/-- **A segment of the path** does to `res` what it does to the stack. -/
theorem segment_holding {done rest : List Char} (kept : k.Kept above stack)
    (tests : Tests k isSep) (start : w.segmentStart = size done) (dots : w.dots = dotsOf segment) :
    (w.holding k stack).segment k.separator above (done ++ (segment ++ rest))
      (size done + size segment) = some (w.holding k (k.keep above stack segment)) := by
  unfold Walk.segment
  have start_ : (w.holding k stack).segmentStart = size done := start
  have dots_ : (w.holding k stack).dots = dotsOf segment := dots
  have nothing : size done = size done + size segment ↔ segment = [] := by
    rw [← size_eq_zero]
    omega
  have one : dotsOf segment = 1 ↔ segment = k.here := by
    rw [tests.here]
    exact dotsOf_eq (n := 1)
  have two : dotsOf segment = 2 ↔ segment = k.up := by
    rw [tests.up]
    exact dotsOf_eq (n := 2)
  rw [start_, dots_]
  by_cases stays : segment = [] ∨ segment = k.here
  · rw [if_pos (stays.imp nothing.2 one.2), Spelling.keep, if_pos stays]
  · rw [if_neg (mt (Or.imp nothing.1 one.1) stays)]
    by_cases up : segment = k.up
    · rw [if_pos (two.2 up), up]
      exact parent_holding w kept tests
    · rw [if_neg (mt two.1 up), slice_mid, Option.map_some, Nat.add_sub_cancel_left,
        push_holding w (fun s one => (kept.whole s one).1), Spelling.keep, if_neg stays, if_neg up]

/-! ## 4. The loop on its path -/

/-- Where the loop stands: after `done` and the segment so far, with the stack in `res`. -/
structure Reads (k : Spelling Char) (isSep : Option UInt8 → Bool) (above : Bool)
    (stack : List (List Char)) (done segment : List Char) (w : Walk) : Prop where
  kept : k.Kept above stack
  holds : w = w.holding k stack
  start : w.segmentStart = size done
  dots : w.dots = dotsOf segment
  ended : isSep w.code = true ↔ done ≠ [] ∧ segment = []

variable {done : List Char} {rest : List Char}

/-- At a separator. -/
theorem Reads.separated {w : Walk} {path : List Char} (code : Option UInt8)
    (reads : Reads k isSep above stack done segment w) (tests : Tests k isSep)
    (path_ : path = done ++ (segment ++ rest)) (sep : isSep code = true)
    (clear : ∀ a ∈ segment, k.separates a = false) :
    ∃ w', { w with code := code }.read k.separator above isSep path (size done + size segment) =
        some w' ∧ w'.res = k.join (k.keep above stack segment) ∧
      ∀ done', size done' = size done + size segment + 1 →
        Reads k isSep above (k.keep above stack segment) done' [] w' := by
  have here : ({ w with code := code }.holding k stack).segment k.separator above
      (done ++ (segment ++ rest)) (size done + size segment) = some _ :=
    segment_holding { w with code := code } reads.kept tests reads.start reads.dots
  have holds : { w with code := code }.holding k stack = { w with code := code } := by
    conv_rhs => rw [reads.holds]
    rfl
  rw [holds, ← path_] at here
  refine ⟨_, (if_pos sep).trans (congrArg _ here), rfl, fun done' far => ?_⟩
  have none_ : dotsOf [] = 0 := dotsOf_eq (n := 0).2 rfl
  refine ⟨k.keep_kept reads.kept clear, rfl, far.symm, none_.symm, iff_of_true sep ⟨?_, rfl⟩⟩
  rintro rfl
  rw [size_nil] at far
  omega

/-- At a byte of a character that is no separator. -/
theorem Reads.byte {w : Walk} {path : List Char} {i : Nat} {x : UInt8} {c : Char}
    (reads : Reads k isSep above stack done segment w) (here : codeAt path i = some x)
    (inside : i < size path) (other : isSep (some x) = false) (dot : x = 0x2e ↔ c = '.') :
    ∃ w', w.step k.separator above isSep path i = some w' ∧
      Reads k isSep above stack done (segment ++ [c]) w' := by
  have holds {w' : Walk} (same : w'.res = w.res)
      (same' : w'.lastSegmentLength = w.lastSegmentLength) : w' = w'.holding k stack := by
    have res : w'.res = k.join stack := same.trans (congrArg Walk.res reads.holds)
    have length : w'.lastSegmentLength = size (stack.getLast?.getD []) :=
      same'.trans (congrArg Walk.lastSegmentLength reads.holds)
    unfold Walk.holding
    rw [← res, ← length]
  unfold Walk.step Walk.read
  rw [if_pos inside, here]
  dsimp only
  rw [if_neg (by rw [other]; decide)]
  have ended : isSep (some x) = true ↔ done ≠ [] ∧ segment ++ [c] = [] :=
    iff_of_false (by rw [other]; decide) (by simp)
  have count : dotsOf (segment ++ [c]) =
      if some x = some 0x2e ∧ w.dots ≠ -1 then w.dots + 1 else -1 := by
    rw [dotsOf_concat, reads.dots]
    exact if_congr (and_congr (dot.symm.trans Option.some_inj.symm) Iff.rfl) rfl rfl
  split
  · rename_i dotted
    rw [if_pos dotted] at count
    exact ⟨_, rfl, reads.kept, holds rfl rfl, reads.start, count.symm, ended⟩
  · rename_i plain
    rw [if_neg plain] at count
    exact ⟨_, rfl, reads.kept, holds rfl rfl, reads.start, count.symm, ended⟩

/-- At one more byte of a character of several. -/
theorem Reads.more {w : Walk} {c : Char} (plain : c ≠ '.')
    (reads : Reads k isSep above stack done (segment ++ [c] ++ [c]) w) :
    Reads k isSep above stack done (segment ++ [c]) w where
  kept := reads.kept
  holds := reads.holds
  start := reads.start
  dots := by
    rw [reads.dots, dotsOf_concat, if_neg fun both => plain both.1, dotsOf_concat,
      if_neg fun both => plain both.1]
  ended := reads.ended.trans (by simp)

/-- **Over a character** that is no separator, all its bytes. -/
theorem Reads.character {w : Walk} {path : List Char} {c : Char}
    (reads : Reads k isSep above stack done segment w) (tests : Tests k isSep)
    (path_ : path = done ++ (segment ++ c :: rest)) (apart : k.separates c = false) :
    ∃ w', (List.range' (size done + size segment) c.utf8Size).foldlM
        (Walk.step k.separator above isSep path) w = some w' ∧
      Reads k isSep above stack done (segment ++ [c]) w' := by
  have path' : path = (done ++ segment) ++ c :: rest := by rw [path_, List.append_assoc]
  have width : size path = size done + size segment + (c.utf8Size + size rest) := by
    rw [path', size_append, size_append, size_cons]
  have first := c.utf8Size_pos
  by_cases ascii : IsAscii c
  · have here := codeAt_ascii (done ++ segment) ascii rest
    rw [← path', size_append] at here
    obtain ⟨w', turn, reads'⟩ := reads.byte here (by omega) ((tests.same c ascii).trans apart)
      (ofNat_eq ascii (d := '.') (by decide))
    rw [utf8Size_ascii ascii]
    refine ⟨w', ?_, reads'⟩
    rw [List.range'_one, List.foldlM_cons, turn]
    rfl
  · have byte (j : Nat) (in_ : j < c.utf8Size) :
        ∃ x, codeAt path (size done + size segment + j) = some x ∧ isSep (some x) = false ∧
          (x = 0x2e ↔ c = '.') := by
      obtain ⟨x, here, high⟩ := codeAt_within (done ++ segment) ascii rest in_
      rw [← path', size_append] at here
      refine ⟨x, here, tests.other x high, iff_of_false ?_ ?_⟩
      · exact high_ne high (d := '.') (by decide)
      · rintro rfl
        exact ascii (by decide)
    have plain : c ≠ '.' := by
      rintro rfl
      exact ascii (by decide)
    have run (j : Nat) (in_ : j < c.utf8Size) :
        ∃ w', (List.range' (size done + size segment) (j + 1)).foldlM
            (Walk.step k.separator above isSep path) w = some w' ∧
          Reads k isSep above stack done (segment ++ [c]) w' := by
      induction j with
      | zero =>
        obtain ⟨x, here, other, dot⟩ := byte 0 in_
        obtain ⟨w', turn, reads'⟩ := reads.byte here (by omega) other dot
        refine ⟨w', ?_, reads'⟩
        rw [Nat.zero_add, List.range'_one, List.foldlM_cons]
        rw [Nat.add_zero] at turn
        rw [turn]
        rfl
      | succ j ih =>
        obtain ⟨w₁, before, reads₁⟩ := ih (by omega)
        obtain ⟨x, here, other, dot⟩ := byte (j + 1) in_
        obtain ⟨w', turn, reads'⟩ := reads₁.byte here (by omega) other dot
        refine ⟨w', ?_, reads'.more plain⟩
        rw [List.range'_1_concat, List.foldlM_append, before]
        show List.foldlM _ w₁ [size done + size segment + (j + 1)] = some w'
        rw [List.foldlM_cons, turn]
        rfl
    obtain ⟨last, width_⟩ : ∃ j, c.utf8Size = j + 1 := ⟨c.utf8Size - 1, by omega⟩
    rw [width_]
    exact run last (by omega)

/-- **Over a separator.** -/
theorem Reads.separator {w : Walk} {path : List Char} {c : Char}
    (reads : Reads k isSep above stack done segment w) (tests : Tests k isSep)
    (path_ : path = done ++ (segment ++ c :: rest)) (sep : k.separates c = true)
    (clear : ∀ a ∈ segment, k.separates a = false) :
    ∃ w', (List.range' (size done + size segment) c.utf8Size).foldlM
        (Walk.step k.separator above isSep path) w = some w' ∧
      Reads k isSep above (k.keep above stack segment) (done ++ segment ++ [c]) [] w' := by
  have path' : path = (done ++ segment) ++ c :: rest := by rw [path_, List.append_assoc]
  have ascii := tests.ascii c sep
  have width := utf8Size_ascii ascii
  have here := codeAt_ascii (done ++ segment) ascii rest
  rw [← path', size_append] at here
  have inside : size done + size segment < size path := by
    rw [path', size_append, size_append, size_cons]
    omega
  obtain ⟨w', turn, -, reads'⟩ := reads.separated (some (UInt8.ofNat c.toNat)) tests path_
    ((tests.same c ascii).trans sep) clear
  refine ⟨w', ?_, reads' _ ?_⟩
  · rw [width, List.range'_one, List.foldlM_cons, Walk.step, if_pos inside, here, turn]
    rfl
  · rw [size_append, size_append, size_cons, width, size_nil]

/-- **At the end** of the path. -/
theorem Reads.last {w : Walk} {path : List Char}
    (reads : Reads k isSep above stack done segment w) (tests : Tests k isSep)
    (path_ : path = done ++ segment) (clear : ∀ a ∈ segment, k.separates a = false) :
    ∃ w', w.step k.separator above isSep path (size path) = some w' ∧
      w'.res = k.join (k.keep above stack segment) := by
  unfold Walk.step
  rw [if_neg (Nat.lt_irrefl _)]
  by_cases after : isSep w.code = true
  · rw [if_pos after]
    obtain ⟨-, rfl⟩ := reads.ended.1 after
    refine ⟨w, rfl, ?_⟩
    rw [Spelling.keep, if_pos (.inl rfl)]
    exact congrArg Walk.res reads.holds
  · rw [if_neg after]
    have path' : path = done ++ (segment ++ []) := by rw [path_, List.append_nil]
    obtain ⟨w', turn, res, -⟩ := reads.separated (some 0x2f) tests path' tests.ended clear
    refine ⟨w', ?_, res⟩
    have far : size path = size done + size segment := by rw [path_, size_append]
    rw [far]
    exact turn

/-- **The loop from where it stands to the end**: `res` is the stack the rest of the path leaves. -/
theorem Reads.run {w : Walk} {path : List Char} (reads : Reads k isSep above stack done segment w)
    (tests : Tests k isSep) (path_ : path = done ++ (segment ++ rest))
    (clear : ∀ a ∈ segment, k.separates a = false) :
    ∃ w', (List.range' (size done + size segment) (size rest + 1)).foldlM
        (Walk.step k.separator above isSep path) w = some w' ∧
      w'.res = k.join (((segment ++ rest).splitOnP k.separates).foldl (k.keep above) stack) := by
  induction rest generalizing stack done segment w with
  | nil =>
    rw [List.append_nil] at path_ ⊢
    obtain ⟨w', turn, res⟩ := reads.last tests path_ clear
    have far : size done + size segment = size path := by rw [path_, size_append]
    rw [List.splitOnP_eq_singleton clear, far, size_nil, Nat.zero_add, List.range'_one,
      List.foldlM_cons, turn]
    exact ⟨w', rfl, res⟩
  | cons c rest ih =>
    rw [size_cons, Nat.add_assoc, ← List.range'_append_1, List.foldlM_append]
    by_cases sep : k.separates c = true
    · obtain ⟨w₁, here, reads₁⟩ := reads.separator tests path_ sep clear
      have path₁ : path = done ++ segment ++ [c] ++ ([] ++ rest) := by
        rw [path_]
        simp only [List.append_assoc, List.cons_append, List.nil_append]
      obtain ⟨w', after, res⟩ := ih reads₁ path₁ fun a one => absurd one List.not_mem_nil
      refine ⟨w', ?_, ?_⟩
      · rw [here, size_append, size_append, size_cons, size_nil, Nat.add_zero] at *
        exact after
      · rw [res, List.splitOnP_append_cons_of_forall_mem clear c sep]
        rfl
    · have apart : k.separates c = false := Bool.eq_false_iff.2 sep
      obtain ⟨w₁, here, reads₁⟩ := reads.character tests path_ apart
      have path₁ : path = done ++ (segment ++ [c] ++ rest) := by
        rw [path_, List.append_assoc, List.singleton_append]
      have clear₁ : ∀ a ∈ segment ++ [c], k.separates a = false := by
        intro a one
        rcases List.mem_append.1 one with one | one
        · exact clear a one
        · rw [List.mem_singleton.1 one, apart]
      obtain ⟨w', after, res⟩ := ih reads₁ path₁ clear₁
      refine ⟨w', ?_, ?_⟩
      · rw [size_append, size_cons, size_nil, Nat.add_zero, ← Nat.add_assoc] at after
        rw [here]
        exact after
      · rw [res, List.append_assoc, List.singleton_append]

/-- **`normalize_string` is the stack of segments**, for any spelling its test is for. -/
theorem normalizeString_resolve (tests : Tests k isSep) (path : List Char) (above : Bool) :
    normalizeString path above k.separator isSep = some (k.resolve above path) := by
  have begun : Reads k isSep above [] [] [] {} := by
    refine ⟨Spelling.kept_nil k, rfl, rfl, (dotsOf_eq (n := 0).2 rfl).symm, ?_⟩
    exact iff_of_false (by rw [tests.nothing]; decide) fun both => both.1 rfl
  have here : path = [] ++ ([] ++ path) := rfl
  obtain ⟨w', run, res⟩ := begun.run tests here fun a one => absurd one List.not_mem_nil
  rw [size_nil, Nat.add_zero] at run
  rw [normalizeString, run, Option.map_some, res]
  rfl

end

/-- **A path without its dots.** For every path and both separators, `normalize_string` splits it
    at its separators, drops the empty segments and the dots, takes the last kept segment off for
    a `..` unless that is one itself (which is kept where the path may go above its root), and
    joins what is left; no cut it takes falls inside a character; and what it gives it leaves as it
    is. -/
theorem normalizeString_segments (path : List Char) (above : Bool) :
    normalizeString path above '/' isPosixPathSeparator = some (posix.resolve above path) ∧
    normalizeString path above '\\' isPathSeparator = some (windows.resolve above path) ∧
    normalizeString (posix.resolve above path) above '/' isPosixPathSeparator =
      some (posix.resolve above path) ∧
    normalizeString (windows.resolve above path) above '\\' isPathSeparator =
      some (windows.resolve above path) := by
  have again := normalizeString_resolve posix_tests (posix.resolve above path) above
  have again' := normalizeString_resolve windows_tests (windows.resolve above path) above
  rw [posix.resolve_again] at again
  rw [windows.resolve_again] at again'
  exact ⟨normalizeString_resolve posix_tests path above,
    normalizeString_resolve windows_tests path above, again, again'⟩

/-- `a/../../b` may leave its root or not. -/
example : posix.resolve true "a/../../b//.".toList = "../b".toList ∧
    posix.resolve false "a/../../b//.".toList = "b".toList := by decide

end Paths
