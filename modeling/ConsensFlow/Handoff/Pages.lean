/-
  File:      ConsensFlow/Handoff/Pages.lean
  Subject:   THE PAGES OF A HANDOFF (`cf-engine`, `handoff/pages.rs`): entries of the history cut to
             fit a page, and packed into pages from the newest.

  * `cutAt`, `cutLong` -- a line too long for a page, cut in UTF-16 units;
  * `fit` -- an entry in pieces, by lines, each after the first under a line that says so;
  * `paginate` -- the pieces in pages; `none` where a cut would go on for ever;
  * `Reads` -- pieces hold a text, but for newlines between them;
  * **`pages_hold_every_word`** -- of any entries: there are pages, read from the last they are the
    entries' pieces in order, no word lost, and each fits.
-/
import ConsensFlow.Lib.Lines
import ConsensFlow.Lib.Utf16

namespace ConsensFlow
namespace Handoff

open Lib.Lines (parted)
open Lib.Utf8 (size size_append size_cons size_nil)
open Lib.Utf16 (encode lossy IsHigh NotHalved)

abbrev Text := List Char

/-! ## 1. An entry in pieces -/

/-- How many lines a text is. -/
def lines (text : Text) : Nat := (parted '\n' text).length

/-- `utf8_len`: half of a pair counts as the replacement character. -/
def utf8Len (units : List Nat) : Nat := size (lossy units)

/-- A tenth less at a time until it fits. The source multiplies a double by 0.9. -/
def shrink (units : List Nat) (maxBytes cut : Nat) : Nat :=
  if maxBytes < utf8Len (units.take cut) then shrink units maxBytes (9 * cut / 10) else cut
termination_by cut
decreasing_by
  rename_i long
  have some_ : cut ≠ 0 := by
    rintro rfl
    exact absurd long (Nat.not_lt.2 (Nat.zero_le _))
  omega

/-- `cut_at`: where a line too long for a page is cut, before a pair it would cut in two. -/
def cutAt (units : List Nat) (maxBytes : Nat) : Nat :=
  let cut := shrink units maxBytes (min units.length maxBytes)
  if 0 < cut ∧ (units[cut - 1]?).any (fun unit => decide (IsHigh unit)) then cut - 1 else cut

/-- The pieces of an entry so far, and the one its lines are put into. -/
structure Cutting where
  pieces : List Text := []
  piece : Text := []
  deriving DecidableEq, Repr

def Cutting.flush (c : Cutting) : Cutting :=
  if c.piece = [] then c else { pieces := c.pieces ++ [c.piece], piece := [] }

/-- A line's beginnings, cut while it is too long, and its rest. A cut of nothing would go on for
    ever: `none`. -/
def cutLong (maxBytes : Nat) (c : Cutting) (rest : Text) : Option (Cutting × Text) :=
  if size rest ≤ maxBytes then some (c, rest)
  else
    let units := encode rest
    let cut := cutAt units maxBytes
    if _h : 0 < cut then
      cutLong maxBytes { pieces := c.flush.pieces ++ [lossy (units.take cut)], piece := [] }
        (lossy (units.drop cut))
    else none
termination_by (encode rest).length
decreasing_by
  rename_i long
  have bound := Lib.Utf16.size_lossy_le (encode rest)
  rw [Lib.Utf16.lossy_encode] at bound
  have some_ : 0 < (encode rest).length := by omega
  rw [Lib.Utf16.encode_lossy_length, List.length_drop]
  exact Nat.sub_lt some_ _h

/-- One line of an entry. -/
def fitLine (maxBytes maxLines : Nat) (c : Cutting) (line : Text) : Option Cutting := do
  let (c, rest) ← cutLong maxBytes c line
  let next := if c.piece = [] then rest else c.piece ++ '\n' :: rest
  if maxBytes < size next ∨ maxLines < lines next then some { c.flush with piece := rest }
  else some { c with piece := next }

/-- The line every piece of an entry after its first begins with. -/
def continued : Text := "(continued)\n".toList

/-- The pieces of an entry, each after the first under its line. -/
def marked : List Text → List Text
  | [] => []
  | first :: others => first :: others.map (continued ++ ·)

/-- `fit`: one entry cut to fit a page: by lines, and a line too long by characters. -/
def fit (entry : Text) (maxBytes maxLines : Nat) : Option (List Text) :=
  if size entry ≤ maxBytes ∧ lines entry ≤ maxLines then some [entry]
  else ((parted '\n' entry).foldlM (fitLine maxBytes maxLines) {}).map fun c =>
    marked c.flush.pieces

/-! ## 2. Pages -/

def pageBytes : Nat := 8000
def pageLines : Nat := 200
def frameBytes : Nat := 600
def frameLines : Nat := 6

/-- The pages so far, the page pieces are put into, the newest first, and what it costs. -/
structure Packing where
  pages : List (List Text) := []
  page : List Text := []
  usedBytes : Nat := 0
  usedLines : Nat := 0
  deriving DecidableEq, Repr

def Packing.turn (p : Packing) : Packing :=
  { pages := p.pages ++ [p.page.reverse] }

def pack (maxBytes maxLines : Nat) (p : Packing) (piece : Text) : Packing :=
  let costBytes := size piece + 2
  let costLines := lines piece + 1
  let p := if p.page ≠ [] ∧
      (maxBytes < p.usedBytes + costBytes ∨ maxLines < p.usedLines + costLines) then p.turn else p
  { p with
    page := p.page ++ [piece]
    usedBytes := p.usedBytes + costBytes
    usedLines := p.usedLines + costLines }

/-- `paginate`: entries in the order they were said, packed into pages from the newest: each page
    oldest first, the newest page first. -/
def paginate (entries : List Text) : Option (List (List Text)) := do
  let maxBytes := pageBytes - frameBytes
  let maxLines := pageLines - frameLines
  let pieces ← entries.mapM fun entry => fit entry (maxBytes - 16) (maxLines - 1)
  let packed := pieces.flatten.reverse.foldl (pack maxBytes maxLines) {}
  some (if packed.page = [] then packed.pages else packed.turn.pages)

/-! ## 3. A cut -/

section Cut

variable {text : Text} {maxBytes cut : Nat} {units : List Nat}

theorem shrink_fits (units : List Nat) (maxBytes cut : Nat) :
    utf8Len (units.take (shrink units maxBytes cut)) ≤ maxBytes := by
  fun_induction shrink units maxBytes cut with
  | case1 cut long ih => exact ih
  | case2 cut short => exact Nat.not_lt.1 short

/-- A unit takes three bytes at most: so few units as make a tenth nothing fit a page. -/
theorem shrink_some (room : 6 ≤ maxBytes) (some_ : 2 ≤ cut) : 2 ≤ shrink units maxBytes cut := by
  fun_induction shrink units maxBytes cut with
  | case1 cut long ih =>
    have bound := Lib.Utf16.size_lossy_le (units.take cut)
    rw [List.length_take] at bound
    have wide : maxBytes < size (lossy (units.take cut)) := long
    exact ih (by omega)
  | case2 cut short => exact some_

theorem shrink_le (units : List Nat) (maxBytes cut : Nat) : shrink units maxBytes cut ≤ cut := by
  fun_induction shrink units maxBytes cut with
  | case1 cut long ih => omega
  | case2 cut short => exact Nat.le_refl cut

/-- A cut of units that fit no page: what comes of the tenths taken off, or one unit before it. -/
theorem cutAt_cases (room : 6 ≤ maxBytes) (long : maxBytes < 3 * units.length) :
    ∃ cut, 1 ≤ cut ∧ cut < units.length ∧ utf8Len (units.take (cut + 1)) ≤ maxBytes ∧
      cutAt units maxBytes =
        if (units[cut]?).any (fun unit => decide (IsHigh unit)) then cut else cut + 1 := by
  have upTo := shrink_le units maxBytes (min units.length maxBytes)
  have some_ : 2 ≤ shrink units maxBytes (min units.length maxBytes) :=
    shrink_some room (by omega)
  have fits := shrink_fits units maxBytes (min units.length maxBytes)
  unfold cutAt
  cases cut : shrink units maxBytes (min units.length maxBytes) with
  | zero => omega
  | succ k =>
    rw [cut] at upTo some_ fits
    have more : 0 < k + 1 := Nat.succ_pos k
    refine ⟨k, by omega, by omega, fits, ?_⟩
    dsimp only
    rw [Nat.add_sub_cancel]
    simp only [more, true_and]

/-- **A cut of a line too long** is of some of it, fits, and is between two characters. -/
theorem cutAt_cut (room : 6 ≤ maxBytes) (long : maxBytes < size text) :
    0 < cutAt (encode text) maxBytes ∧ ∃ a b, text = a ++ b ∧ size a ≤ maxBytes ∧
      lossy ((encode text).take (cutAt (encode text) maxBytes)) = a ∧
      lossy ((encode text).drop (cutAt (encode text) maxBytes)) = b := by
  have bound := Lib.Utf16.size_lossy_le (encode text)
  rw [Lib.Utf16.lossy_encode] at bound
  obtain ⟨cut, some_, inside, fits, form⟩ :=
    cutAt_cases room (Nat.lt_of_lt_of_le long bound)
  obtain ⟨unit, here⟩ : ∃ unit, (encode text)[cut]? = some unit :=
    ⟨_, List.getElem?_eq_getElem inside⟩
  have last : (encode text).take (cut + 1) = (encode text).take cut ++ [unit] := by
    rw [List.take_add_one, here]
    rfl
  rw [here, Option.any_some] at form
  by_cases high : IsHigh unit
  · rw [form, if_pos (decide_eq_true high)]
    obtain ⟨a, b, rfl, upTo, rest⟩ :=
      Lib.Utf16.cut_between text cut (Lib.Utf16.notHalved_before text here high)
    rw [utf8Len, last, upTo, Lib.Utf16.lossy_encode_append, size_append] at fits
    rw [upTo, rest, Lib.Utf16.lossy_encode, Lib.Utf16.lossy_encode]
    exact ⟨by omega, a, b, rfl, by omega, rfl, rfl⟩
  · rw [form, if_neg fun yes => high (of_decide_eq_true yes)]
    have whole : NotHalved ((encode text).take (cut + 1)) := by
      intro other ends
      rw [last, List.getLast?_concat] at ends
      exact Option.some.inj ends ▸ high
    obtain ⟨a, b, rfl, upTo, rest⟩ := Lib.Utf16.cut_between text (cut + 1) whole
    rw [utf8Len, upTo, Lib.Utf16.lossy_encode] at fits
    rw [upTo, rest, Lib.Utf16.lossy_encode, Lib.Utf16.lossy_encode]
    exact ⟨Nat.succ_pos cut, a, b, rfl, fits, rfl, rfl⟩

end Cut

/-! ## 4. An entry's pieces hold it -/

/-- Pieces hold a text: they are the text in order, but for newlines between them. -/
inductive Reads : Text → List Text → Prop
  | done : Reads [] []
  | newline {text : Text} {pieces : List Text} : Reads text pieces → Reads ('\n' :: text) pieces
  | piece {text : Text} {pieces : List Text} (piece : Text) :
      Reads text pieces → Reads (piece ++ text) (piece :: pieces)

namespace Reads

variable {text more sep : Text} {pieces others : List Text}

theorem append (first : Reads text pieces) (second : Reads more others) :
    Reads (text ++ more) (pieces ++ others) := by
  induction first with
  | done => exact second
  | newline _ ih => exact ih.newline
  | piece piece _ ih =>
    rw [List.append_assoc]
    exact ih.piece piece

theorem one (piece : Text) : Reads piece [piece] := by
  have whole := done.piece piece
  rwa [List.append_nil] at whole

theorem newlines (only : ∀ c ∈ sep, c = '\n') : Reads sep [] := by
  induction sep with
  | nil => exact done
  | cons c sep ih =>
    rw [only c List.mem_cons_self]
    exact (ih fun c here => only c (List.mem_cons_of_mem _ here)).newline

/-- Every character but the newlines, once and in order. -/
theorem words (reads : Reads text pieces) :
    pieces.flatten.filter (· ≠ '\n') = text.filter (· ≠ '\n') := by
  induction reads with
  | done => rfl
  | newline _ ih =>
    rw [ih, List.filter_cons_of_neg (by decide)]
  | piece piece _ ih => rw [List.flatten_cons, List.filter_append, List.filter_append, ih]

end Reads

structure Fits (maxBytes maxLines : Nat) (piece : Text) : Prop where
  bytes : size piece ≤ maxBytes
  lines : lines piece ≤ maxLines

section Fit

variable {maxBytes maxLines : Nat} {c : Cutting} {text rest line : Text}

theorem lines_eq (text : Text) : lines text = text.count '\n' + 1 :=
  Lib.Lines.length_parted '\n' text

theorem lines_clear (clear : '\n' ∉ text) : lines text = 1 := by
  rw [lines_eq, List.count_eq_zero.2 clear]

/-- The pieces hold the text but for the piece lines are put into, and all fit. -/
structure Cutting.Holds (maxBytes maxLines : Nat) (c : Cutting) (text : Text) : Prop where
  reads : ∃ before, text = before ++ c.piece ∧ Reads before c.pieces
  fits : ∀ piece ∈ c.pieces, Fits maxBytes maxLines piece
  piece : Fits maxBytes maxLines c.piece

/-- The pieces hold the text but for a line's rest, which a newline parts from the piece it would be
    put into. -/
structure Cutting.Takes (maxBytes maxLines : Nat) (c : Cutting) (rest text : Text) : Prop where
  reads : ∃ before sep, text = before ++ c.piece ++ sep ++ rest ∧ Reads before c.pieces ∧
    (∀ c ∈ sep, c = '\n') ∧ (c.piece ≠ [] → sep = ['\n'])
  fits : ∀ piece ∈ c.pieces, Fits maxBytes maxLines piece
  piece : Fits maxBytes maxLines c.piece
  clear : '\n' ∉ rest

theorem flush_reads {before : Text} (reads : Reads before c.pieces) :
    Reads (before ++ c.piece) c.flush.pieces := by
  unfold Cutting.flush
  split
  · rename_i none_
    rw [none_, List.append_nil]
    exact reads
  · exact reads.append (Reads.one c.piece)

theorem flush_fits (fits : ∀ piece ∈ c.pieces, Fits maxBytes maxLines piece)
    (last : Fits maxBytes maxLines c.piece) :
    ∀ piece ∈ c.flush.pieces, Fits maxBytes maxLines piece := by
  unfold Cutting.flush
  split
  · exact fits
  · intro piece among
    rcases List.mem_append.1 among with among | among
    · exact fits piece among
    · rw [List.mem_singleton.1 among]
      exact last

/-- A line's beginnings are cut off while it is too long, and what is left of it is not. -/
theorem cutLong_takes (room : 6 ≤ maxBytes) (one : 1 ≤ maxLines)
    (takes : c.Takes maxBytes maxLines rest text) :
    ∃ c' rest', cutLong maxBytes c rest = some (c', rest') ∧
      c'.Takes maxBytes maxLines rest' text ∧ size rest' ≤ maxBytes := by
  fun_induction cutLong maxBytes c rest with
  | case1 c rest short => exact ⟨c, rest, rfl, takes, short⟩
  | case2 c rest long units cut some_ ih =>
    obtain ⟨-, a, b, rfl, fits, upTo, from_⟩ := cutAt_cut room (Nat.not_le.1 long)
    have upTo' : lossy (units.take cut) = a := upTo
    have from' : lossy (units.drop cut) = b := from_
    rw [upTo', from'] at ih ⊢
    apply ih
    obtain ⟨⟨before, sep, rfl, reads, only, -⟩, fits_, last, clear⟩ := takes
    rw [List.mem_append, not_or] at clear
    refine ⟨⟨before ++ c.piece ++ sep ++ a, [], by simp, ?_, by simp, by simp⟩, ?_, ?_, clear.2⟩
    · have cut_ := ((flush_reads reads).append (Reads.newlines only)).append (Reads.one a)
      rwa [List.append_nil] at cut_
    · intro piece among
      rcases List.mem_append.1 among with among | among
      · exact flush_fits fits_ last piece among
      · rw [List.mem_singleton.1 among]
        exact ⟨fits, by rw [lines_clear clear.1]; exact one⟩
    · exact ⟨Nat.zero_le _, one⟩
  | case3 c rest long units cut none_ =>
    exact absurd (cutAt_cut room (Nat.not_le.1 long)).1 none_

/-- One line more. -/
theorem fitLine_holds (room : 6 ≤ maxBytes) (one : 1 ≤ maxLines)
    (takes : c.Takes maxBytes maxLines line text) :
    ∃ c', fitLine maxBytes maxLines c line = some c' ∧ c'.Holds maxBytes maxLines text := by
  obtain ⟨c', rest, form, takes', short⟩ := cutLong_takes room one takes
  obtain ⟨⟨before, sep, rfl, reads, only, parts⟩, fits, last, clear⟩ := takes'
  have alone : Fits maxBytes maxLines rest := ⟨short, by rw [lines_clear clear]; exact one⟩
  rw [fitLine, form]
  dsimp only [bind, Option.bind]
  by_cases wide : maxBytes < size (if c'.piece = [] then rest else c'.piece ++ '\n' :: rest) ∨
      maxLines < lines (if c'.piece = [] then rest else c'.piece ++ '\n' :: rest)
  · rw [if_pos wide]
    have flushed := (flush_reads reads).append (Reads.newlines only)
    rw [List.append_nil] at flushed
    exact ⟨_, rfl, ⟨before ++ c'.piece ++ sep, rfl, flushed⟩, flush_fits fits last, alone⟩
  · rw [if_neg wide]
    rw [not_or, Nat.not_lt, Nat.not_lt] at wide
    refine ⟨_, rfl, ?_, fits, wide.1, wide.2⟩
    by_cases none_ : c'.piece = []
    · have parted_ := reads.append (Reads.newlines only)
      rw [List.append_nil] at parted_
      refine ⟨before ++ sep, ?_, parted_⟩
      dsimp only
      rw [if_pos none_, none_, List.append_nil]
    · refine ⟨before, ?_, reads⟩
      dsimp only
      rw [if_neg none_, parts none_]
      simp only [List.append_assoc, List.cons_append, List.nil_append]

/-- The lines after the first, each behind its newline. -/
theorem fitLines_hold (room : 6 ≤ maxBytes) (one : 1 ≤ maxLines) (others : List Text)
    (clear : ∀ line ∈ others, '\n' ∉ line) (holds : c.Holds maxBytes maxLines text) :
    ∃ c', others.foldlM (fitLine maxBytes maxLines) c = some c' ∧
      c'.Holds maxBytes maxLines (text ++ others.flatMap ('\n' :: ·)) := by
  induction others generalizing c text with
  | nil =>
    rw [List.flatMap_nil, List.append_nil]
    exact ⟨c, rfl, holds⟩
  | cons line others ih =>
    obtain ⟨⟨before, whole, reads⟩, fits, last⟩ := holds
    have takes : c.Takes maxBytes maxLines line (text ++ '\n' :: line) := by
      refine ⟨⟨before, ['\n'], ?_, reads, ?_, fun _ => rfl⟩, fits, last,
        clear line List.mem_cons_self⟩
      · rw [whole, List.append_assoc (before ++ c.piece)]
        rfl
      · intro c here
        exact List.mem_singleton.1 here
    obtain ⟨c', form, holds'⟩ := fitLine_holds room one takes
    obtain ⟨c'', form', holds''⟩ :=
      ih (fun line here => clear line (List.mem_cons_of_mem _ here)) holds'
    rw [List.foldlM_cons, form, List.flatMap_cons, ← List.append_assoc]
    exact ⟨c'', form', holds''⟩

/-- **An entry's pieces hold it, and fit**, each after the first but for its line. -/
theorem fit_holds (room : 6 ≤ maxBytes) (one : 1 ≤ maxLines) (entry : Text) :
    ∃ pieces, fit entry maxBytes maxLines = some (marked pieces) ∧ Reads entry pieces ∧
      ∀ piece ∈ pieces, Fits maxBytes maxLines piece := by
  unfold fit
  split
  · rename_i short
    refine ⟨[entry], rfl, Reads.one entry, fun piece among => ?_⟩
    rw [List.mem_singleton.1 among]
    exact ⟨short.1, short.2⟩
  · obtain ⟨first, others, parts, whole⟩ := Lib.Lines.parted_flat '\n' entry
    have clear := Lib.Lines.parted_clear '\n' entry
    rw [parts] at clear ⊢
    have start : Cutting.Takes maxBytes maxLines {} first first :=
      ⟨⟨[], [], rfl, .done, by simp, by simp⟩, by simp, ⟨Nat.zero_le _, one⟩,
        clear first List.mem_cons_self⟩
    obtain ⟨c, form, holds⟩ := fitLine_holds room one start
    obtain ⟨c', form', holds'⟩ := fitLines_hold room one others
      (fun line here => clear line (List.mem_cons_of_mem _ here)) holds
    rw [← whole] at holds'
    obtain ⟨⟨before, entry_, reads⟩, fits, last⟩ := holds'
    refine ⟨c'.flush.pieces, ?_, ?_, flush_fits fits last⟩
    · rw [List.foldlM_cons, form]
      show Option.map _ (others.foldlM (fitLine maxBytes maxLines) c) = _
      rw [form']
      rfl
    · rw [entry_]
      exact flush_reads reads

end Fit

/-! ## 5. Pages -/

/-- A page as it is shown: its pieces, a blank line between two. -/
def shown (page : List Text) : Text := ['\n', '\n'].intercalate page

section Pack

variable {page : List Text} {p : Packing} {piece : Text} {maxBytes maxLines : Nat}

def bytesOf (page : List Text) : Nat := (page.map fun piece => size piece + 2).sum
def linesOf (page : List Text) : Nat := (page.map fun piece => lines piece + 1).sum

/-- What a page costs is what it is shown in, and one blank line more. -/
theorem shown_cost (some_ : page ≠ []) :
    size (shown page) + 2 = bytesOf page ∧ lines (shown page) + 1 = linesOf page := by
  unfold shown
  induction page with
  | nil => exact absurd rfl some_
  | cons piece page ih =>
    cases page with
    | nil =>
      rw [List.intercalate_singleton]
      exact ⟨rfl, rfl⟩
    | cons next page =>
      obtain ⟨bytes, lines_⟩ := ih (List.cons_ne_nil _ _)
      rw [lines_eq] at lines_
      have two : size ['\n', '\n'] = 2 := rfl
      have breaks : ['\n', '\n'].count '\n' = 2 := rfl
      have bytes' : bytesOf (piece :: next :: page) = size piece + 2 + bytesOf (next :: page) := rfl
      have lines' : linesOf (piece :: next :: page) = lines piece + 1 + linesOf (next :: page) := rfl
      rw [List.intercalate_cons_cons, size_append, size_append, lines_eq, List.count_append,
        List.count_append, bytes', lines', lines_eq piece]
      omega

/-- A page of one piece is what fits, one of more is within the bounds. -/
structure Small (maxBytes maxLines : Nat) (page : List Text) : Prop where
  bytes : bytesOf page ≤ maxBytes + 2
  lines : linesOf page ≤ maxLines + 1

theorem Small.reverse (small : Small maxBytes maxLines page) :
    Small maxBytes maxLines page.reverse := by
  obtain ⟨bytes, lines⟩ := small
  refine ⟨?_, ?_⟩
  · rwa [bytesOf, List.map_reverse, List.sum_reverse]
  · rwa [linesOf, List.map_reverse, List.sum_reverse]

theorem Small.shown (small : Small maxBytes maxLines page) (some_ : page ≠ []) :
    Fits maxBytes maxLines (shown page) := by
  obtain ⟨bytes, lines⟩ := shown_cost some_
  exact ⟨by have := small.bytes; omega, by have := small.lines; omega⟩

/-- The pages hold the pieces so far, given from the last, and each is small. -/
structure Packing.Holds (maxBytes maxLines : Nat) (p : Packing) (pieces : List Text) : Prop where
  pieces : p.page.reverse ++ p.pages.reverse.flatten = pieces
  bytes : p.usedBytes = bytesOf p.page
  lines : p.usedLines = linesOf p.page
  page : Small maxBytes maxLines p.page
  pages : ∀ page ∈ p.pages, page ≠ [] ∧ Small maxBytes maxLines page

variable {pieces : List Text}

theorem Packing.Holds.turn (holds : p.Holds maxBytes maxLines pieces) (some_ : p.page ≠ []) :
    p.turn.Holds maxBytes maxLines pieces := by
  obtain ⟨whole, -, -, page, pages⟩ := holds
  refine ⟨?_, rfl, rfl, ⟨Nat.zero_le _, Nat.zero_le _⟩, fun one among => ?_⟩
  · rw [← whole, Packing.turn, List.reverse_append, List.flatten_append]
    simp
  · rcases List.mem_append.1 among with among | among
    · exact pages one among
    · rw [List.mem_singleton.1 among]
      exact ⟨List.reverse_ne_nil_iff.2 some_, page.reverse⟩

theorem bytesOf_concat (page : List Text) (piece : Text) :
    bytesOf (page ++ [piece]) = bytesOf page + (size piece + 2) := by
  simp [bytesOf]

theorem linesOf_concat (page : List Text) (piece : Text) :
    linesOf (page ++ [piece]) = linesOf page + (lines piece + 1) := by
  simp [linesOf]

/-- One piece more, before those so far: into the page where there is room, or it is the first. -/
theorem pack_holds (holds : p.Holds maxBytes maxLines pieces)
    (fits : Fits maxBytes maxLines piece) :
    (pack maxBytes maxLines p piece).Holds maxBytes maxLines (piece :: pieces) := by
  have put {p : Packing} (holds : p.Holds maxBytes maxLines pieces)
      (room : p.page = [] ∨ p.usedBytes + (size piece + 2) ≤ maxBytes ∧
        p.usedLines + (lines piece + 1) ≤ maxLines) :
      Packing.Holds maxBytes maxLines
        { p with
          page := p.page ++ [piece]
          usedBytes := p.usedBytes + (size piece + 2)
          usedLines := p.usedLines + (lines piece + 1) } (piece :: pieces) := by
    obtain ⟨whole, bytes, lines_, page, pages⟩ := holds
    refine ⟨?_, ?_, ?_, ⟨?_, ?_⟩, pages⟩
    · rw [List.reverse_append, ← whole]
      rfl
    · rw [bytesOf_concat, bytes]
    · rw [linesOf_concat, lines_]
    · rw [bytesOf_concat]
      rcases room with none_ | ⟨room, -⟩
      · rw [none_]
        have := fits.bytes
        have nothing : bytesOf [] = 0 := rfl
        omega
      · omega
    · rw [linesOf_concat]
      rcases room with none_ | ⟨-, room⟩
      · rw [none_]
        have := fits.lines
        have nothing : linesOf [] = 0 := rfl
        omega
      · omega
  unfold pack
  dsimp only
  by_cases full : p.page ≠ [] ∧
      (maxBytes < p.usedBytes + (size piece + 2) ∨ maxLines < p.usedLines + (lines piece + 1))
  · rw [if_pos full]
    exact put (holds.turn full.1) (.inl rfl)
  · rw [if_neg full]
    refine put holds ?_
    by_cases none_ : p.page = []
    · exact .inl none_
    · rw [not_and] at full
      have room := full none_
      rw [not_or, Nat.not_lt, Nat.not_lt] at room
      exact .inr room

theorem packs_hold (last : List Text) (fits : ∀ piece ∈ last, Fits maxBytes maxLines piece)
    (holds : p.Holds maxBytes maxLines pieces) :
    (last.foldl (pack maxBytes maxLines) p).Holds maxBytes maxLines (last.reverse ++ pieces) := by
  induction last generalizing p pieces with
  | nil => exact holds
  | cons piece last ih =>
    rw [List.foldl_cons, List.reverse_cons, List.append_assoc]
    exact ih (fun one here => fits one (List.mem_cons_of_mem _ here))
      (pack_holds holds (fits piece List.mem_cons_self))

end Pack

theorem continued_list :
    continued = ['(', 'c', 'o', 'n', 't', 'i', 'n', 'u', 'e', 'd', ')', '\n'] :=
  String.toList_ofList

/-- A piece under its line is a line and twelve bytes more. -/
theorem marked_fits {pieces : List Text} {maxBytes maxLines : Nat}
    (fits : ∀ piece ∈ pieces, Fits maxBytes maxLines piece) :
    ∀ piece ∈ marked pieces, Fits (maxBytes + 16) (maxLines + 1) piece := by
  intro piece among
  have own {piece : Text} (fits : Fits maxBytes maxLines piece) :
      Fits (maxBytes + 16) (maxLines + 1) piece :=
    ⟨Nat.le_add_right_of_le fits.bytes, Nat.le_succ_of_le fits.lines⟩
  cases pieces with
  | nil => cases among
  | cons first others =>
    rcases List.mem_cons.1 among with rfl | among
    · exact own (fits _ List.mem_cons_self)
    · obtain ⟨body, here, rfl⟩ := List.mem_map.1 among
      obtain ⟨bytes, lines_⟩ := fits body (List.mem_cons_of_mem _ here)
      have bytes' : size continued = 12 := by
        rw [continued_list]
        rfl
      have lines' : continued.count '\n' = 1 := by
        rw [continued_list]
        rfl
      rw [lines_eq] at lines_
      refine ⟨?_, ?_⟩
      · rw [size_append, bytes']
        omega
      · rw [lines_eq, List.count_append, lines']
        omega

/-- The entries in pieces that hold them. -/
theorem fits_hold (entries : List Text) : ∃ cuts : List (List Text),
    entries.mapM (fun entry => fit entry 7384 193) = some (cuts.map marked) ∧
      List.Forall₂ Reads entries cuts ∧ ∀ pieces ∈ cuts, ∀ piece ∈ pieces, Fits 7384 193 piece := by
  induction entries with
  | nil => exact ⟨[], rfl, .nil, by simp⟩
  | cons entry entries ih =>
    obtain ⟨pieces, form, reads, fits⟩ :=
      fit_holds (by omega : 6 ≤ 7384) (by omega : 1 ≤ 193) entry
    obtain ⟨cuts, form', reads', fits'⟩ := ih
    refine ⟨pieces :: cuts, ?_, .cons reads reads', ?_⟩
    · rw [List.mapM_cons, form, form']
      rfl
    · intro one among
      rcases List.mem_cons.1 among with rfl | among
      · exact fits
      · exact fits' one among

theorem words_hold {entries : List Text} {cuts : List (List Text)}
    (reads : List.Forall₂ Reads entries cuts) :
    cuts.flatten.flatten.filter (· ≠ '\n') = entries.flatten.filter (· ≠ '\n') := by
  induction reads with
  | nil => rfl
  | cons first _ ih =>
    rw [List.flatten_cons, List.flatten_append, List.filter_append, first.words, ih,
      List.flatten_cons, List.filter_append]

/-- **The pages of a handoff lose no word, and fit**: of any entries there are pages; read from the
    last to the first, each in its order, they are the pieces of the entries, each after an entry's
    first under its line; an entry's pieces are the entry in order, but for newlines between them,
    and hold every other character of it once; and every page is within the bounds. -/
theorem pages_hold_every_word (entries : List Text) : ∃ pages, paginate entries = some pages ∧
    (∃ cuts : List (List Text), pages.reverse.flatten = cuts.flatMap marked ∧
      List.Forall₂ Reads entries cuts ∧
      cuts.flatten.flatten.filter (· ≠ '\n') = entries.flatten.filter (· ≠ '\n')) ∧
    ∀ page ∈ pages, size (shown page) ≤ 7400 ∧ lines (shown page) ≤ 194 := by
  obtain ⟨cuts, form, reads, fits⟩ := fits_hold entries
  have small : ∀ piece ∈ (cuts.map marked).flatten.reverse, Fits 7400 194 piece := by
    intro piece among
    rw [List.mem_reverse, List.mem_flatten] at among
    obtain ⟨_, here, among⟩ := among
    obtain ⟨pieces, cut, rfl⟩ := List.mem_map.1 here
    exact marked_fits (fits pieces cut) piece among
  have start : Packing.Holds 7400 194 {} [] :=
    ⟨rfl, rfl, rfl, ⟨Nat.zero_le _, Nat.zero_le _⟩, by simp⟩
  have packed := packs_hold _ small start
  rw [List.append_nil, List.reverse_reverse] at packed
  -- What is left in hand is the last page.
  obtain ⟨pages, found, whole, each⟩ : ∃ pages, paginate entries = some pages ∧
      pages.reverse.flatten = (cuts.map marked).flatten ∧
      ∀ page ∈ pages, page ≠ [] ∧ Small 7400 194 page := by
    by_cases none_ : ((cuts.map marked).flatten.reverse.foldl (pack 7400 194) {}).page = []
    · refine ⟨_, ?_, ?_, packed.pages⟩
      · show (entries.mapM fun entry => fit entry 7384 193).bind _ = _
        rw [form]
        exact congrArg some (if_pos none_)
      · have whole := packed.pieces
        rwa [none_] at whole
    · have turned := packed.turn none_
      refine ⟨_, ?_, turned.pieces, turned.pages⟩
      show (entries.mapM fun entry => fit entry 7384 193).bind _ = _
      rw [form]
      exact congrArg some (if_neg none_)
  rw [← List.flatMap_def] at whole
  refine ⟨pages, found, ⟨cuts, whole, reads, words_hold reads⟩, fun page among => ?_⟩
  have fits_ := (each page among).2.shown (each page among).1
  exact ⟨fits_.bytes, fits_.lines⟩

end Handoff
end ConsensFlow
