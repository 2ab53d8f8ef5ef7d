/-
  File:      ConsensFlow/Words/Pictures.lean
  Subject:   WHAT CLAUDE CODE RECORDS OF A PASTE WHOSE PICTURES IT ATTACHED (`delivery_text.rs`:
             `is_paste_of`, `names_an_image`, its tests' `claude_records`).

  * `PicturePath`, `PictureLine` -- the lines Claude takes out of a paste;
  * `Fate`, `PasteRecord` -- a paste line by line, what became of each line, and what stands
    around what is left; `PasteRecord.Of`: such a record of a paste;
  * `names_picture`, `names_ends` -- which lines the reader takes for a picture's;
  * **`PasteRecord.reads`** -- what the reader sees of such a record.
-/
import ConsensFlow.Lib.Lines
import ConsensFlow.Words.Arrivals

namespace ConsensFlow.Deliveries

open Lib Lib.Text Lib.Lines

/-! ## 1. Lines that name pictures -/

/-- Nothing but white space. -/
def White (cs : List Char) : Prop := ∀ c ∈ cs, isWhitespace c = true

/-- The path of a picture, as a line of a paste has it: the name of an image file at its end, in
    quotes or not. -/
def PicturePath (path : List Char) : Prop :=
  ∃ name kind, kind.map Char.toLower ∈ ["png", "jpg", "jpeg", "gif", "webp"].map String.toList ∧
    (path = name ++ '.' :: kind ∨
      ∃ quote, (quote = '"' ∨ quote = '\'') ∧ path = quote :: (name ++ ('.' :: (kind ++ [quote]))))

/-- A line of pictures' paths only, a space between two. -/
def PictureLine (paths : List (List Char)) (line : List Char) : Prop :=
  paths ≠ [] ∧ (∀ path ∈ paths, PicturePath path) ∧
    ∃ before after, White before ∧ White after ∧
      line = before ++ ([' '].intercalate paths ++ after)

variable {a b kind line after : List Char} {c : Char}

/-- What is at a text's start is trimmed as it would be alone, where no space follows it. -/
theorem trimStart_solid (solid : isWhitespace c = false) (a x : List Char) :
    trimStart (a ++ c :: x) = trimStart a ++ c :: x := by
  induction a with
  | nil => exact List.dropWhile_cons_of_neg (by rw [solid]; decide)
  | cons d a ih =>
    unfold trimStart at ih ⊢
    rw [List.cons_append, List.dropWhile_cons, List.dropWhile_cons]
    split
    · exact ih
    · rfl

/-- A text trimmed, where a character that is no space is its last. -/
theorem trim_ends (solid : isWhitespace c = false) (white : White after) (a : List Char) :
    trim (a ++ c :: after) = trimStart a ++ [c] := by
  have back (x : List Char) : trimStart (after.reverse ++ c :: x) = c :: x := by
    unfold trimStart
    rw [List.dropWhile_append_of_pos fun d one => white d (List.mem_reverse.1 one)]
    exact List.dropWhile_cons_of_neg (by rw [solid]; decide)
  rw [trim, trimStart_solid solid, List.reverse_append, List.reverse_cons, List.append_assoc,
    List.singleton_append, back, List.reverse_cons, List.reverse_reverse]

theorem trim_white (white : White after) : trim after = [] := by
  have nothing : trimStart after = [] := List.dropWhile_eq_nil_iff.2 white
  rw [trim, nothing]
  rfl

/-- A line with its end is trimmed as the line is. -/
theorem trim_line (line : List Char) : trim (line ++ ['\n']) = trim line := by
  by_cases white : White line
  · rw [trim_white white, trim_white fun c one => ?_]
    rcases List.mem_append.1 one with one | one
    · exact white c one
    · rw [List.mem_singleton.1 one]
      decide
  · -- its last character that is no space
    obtain ⟨front, c, after, rfl, solid, white'⟩ : ∃ front c after, line = front ++ c :: after ∧
        isWhitespace c = false ∧ White after := by
      induction line with
      | nil => exact absurd (fun c one => (by cases one)) white
      | cons d line ih =>
        by_cases rest : White line
        · refine ⟨[], d, line, rfl, ?_, rest⟩
          cases here : isWhitespace d with
          | false => rfl
          | true =>
            refine absurd (fun c one => ?_) white
            rcases List.mem_cons.1 one with rfl | one
            · exact here
            · exact rest c one
        · obtain ⟨front, c, after, rfl, solid, white'⟩ := ih rest
          exact ⟨d :: front, c, after, rfl, solid, white'⟩
    have whole : front ++ c :: after ++ ['\n'] = front ++ c :: (after ++ ['\n']) := by
      rw [List.append_assoc, List.cons_append]
    rw [whole, trim_ends solid white', trim_ends solid fun d one => ?_]
    rcases List.mem_append.1 one with one | one
    · exact white' d one
    · rw [List.mem_singleton.1 one]
      decide

/-- A letter's case aside, it is a letter. -/
theorem alpha_of_lower (low : 97 ≤ c.toLower.toNat) (high : c.toLower.toNat ≤ 122) :
    c.isAlpha = true := by
  rw [Char.isAlpha, Bool.or_eq_true]
  unfold Char.toLower at low high
  split at low
  · rename_i upper
    exact .inl (decide_eq_true upper)
  · split at high
    · contradiction
    · refine .inr ?_
      rw [Char.isLower, Bool.and_eq_true, decide_eq_true_eq, decide_eq_true_eq]
      exact ⟨low, high⟩

theorem alpha_range (h : c.isAlpha = true) : 65 ≤ c.toNat ∧ c.toNat ≤ 122 := by
  rw [Char.isAlpha, Bool.or_eq_true, Char.isUpper, Char.isLower, decide_eq_true_eq,
    Bool.and_eq_true, decide_eq_true_eq, decide_eq_true_eq] at h
  rcases h with ⟨low, high⟩ | ⟨low, high⟩
  · have low : 65 ≤ c.toNat := low
    have high : c.toNat ≤ 90 := high
    omega
  · have low : 97 ≤ c.toNat := low
    have high : c.toNat ≤ 122 := high
    omega

/-- What the kind of an image is written with: letters. -/
theorem kind_letters
    (h : kind.map Char.toLower ∈ ["png", "jpg", "jpeg", "gif", "webp"].map String.toList) :
    kind ≠ [] ∧ ∀ c ∈ kind, c.isAlpha = true := by
  have all : ∀ word ∈ ["png", "jpg", "jpeg", "gif", "webp"].map String.toList,
      word ≠ [] ∧ ∀ c ∈ word, 97 ≤ c.toNat ∧ c.toNat ≤ 122 := by simp
  obtain ⟨some_, letters⟩ := all _ h
  refine ⟨fun nothing => some_ (by rw [nothing]; rfl), fun c one => ?_⟩
  obtain ⟨low, high⟩ := letters _ (List.mem_map_of_mem one)
  exact alpha_of_lower low high

theorem solid_of_print (low : 0x20 < c.toNat) (high : c.toNat < 0x7F) : isWhitespace c = false := by
  unfold isWhitespace
  simp only [Bool.or_eq_false_iff, Bool.and_eq_false_iff, decide_eq_false_iff_not,
    beq_eq_false_iff_ne]
  omega

/-- The quotes a reader takes off the end of a line. -/
def unquoted (line : List Char) : List Char :=
  ((stripSuffix ['"'] line).orElse fun _ => stripSuffix ['\''] line).getD line

theorem unquoted_other (other : c ≠ '"' ∧ c ≠ '\'') (a : List Char) :
    unquoted (a ++ [c]) = a ++ [c] := by
  have no (d : Char) (differ : c ≠ d) : stripSuffix [d] (a ++ [c]) = none := by
    refine stripSuffix_last (c := d) rfl ?_
    rw [List.getLast?_concat]
    exact fun same => differ (Option.some.inj same)
  rw [unquoted, no _ other.1, no _ other.2]
  rfl

theorem unquoted_quote {quote : Char} (quote_ : quote = '"' ∨ quote = '\'') (a : List Char) :
    unquoted (a ++ [quote]) = a := by
  rcases quote_ with rfl | rfl
  · rw [unquoted, stripSuffix_append]
    rfl
  · have no : stripSuffix ['"'] (a ++ ['\'']) = none := by
      refine stripSuffix_last (c := '"') rfl ?_
      rw [List.getLast?_concat]
      decide
    rw [unquoted, no, Option.orElse_none, stripSuffix_append]
    rfl

theorem namesAnImage_eq (line : List Char) : namesAnImage line =
    (splitOnce ['.'] (unquoted (trim line)).reverse).any fun (kind, _) =>
      ["png", "jpg", "jpeg", "gif", "webp"].any fun image =>
        kind.reverse.map Char.toLower == image.toList := rfl

/-- A line whose words end with a dot and the kind of an image names one. -/
theorem names_kind (ends : unquoted (trim line) = a ++ '.' :: kind)
    (kind_ : kind.map Char.toLower ∈ ["png", "jpg", "jpeg", "gif", "webp"].map String.toList) :
    namesAnImage line = true := by
  have noDot : '.' ∉ kind.reverse := by
    intro one
    exact absurd ((kind_letters kind_).2 _ (List.mem_reverse.1 one)) (by decide)
  have form : (a ++ '.' :: kind).reverse = kind.reverse ++ (['.'] ++ a.reverse) := by
    rw [List.reverse_append, List.reverse_cons, List.append_assoc]
  obtain ⟨image, one, same⟩ := List.mem_map.1 kind_
  rw [namesAnImage_eq, ends, form, splitOnce_head rfl noDot]
  refine List.any_eq_true.2 ⟨image, one, ?_⟩
  rw [List.reverse_reverse, beq_iff_eq, same]

/-- **A line of pictures' paths names one**, whatever stands before it. -/
theorem PictureLine.names {paths : List (List Char)} (h : PictureLine paths line) :
    namesAnImage line = true := by
  obtain ⟨some_, all, before, after, -, white, rfl⟩ := h
  obtain ⟨front, path, rfl⟩ : ∃ front path, paths = front ++ [path] := by
    rcases List.eq_nil_or_concat paths with rfl | ⟨front, path, rfl⟩
    · exact absurd rfl some_
    · exact ⟨front, path, List.concat_eq_append⟩
  obtain ⟨ahead, form⟩ : ∃ ahead, [' '].intercalate (front ++ [path]) = ahead ++ path := by
    clear * -
    induction front with
    | nil => exact ⟨[], List.intercalate_singleton⟩
    | cons one front ih =>
      obtain ⟨ahead, form⟩ := ih
      refine ⟨one ++ ([' '] ++ ahead), ?_⟩
      cases front with
      | nil =>
        rw [List.nil_append, List.intercalate_singleton] at form
        rw [List.cons_append, List.nil_append, List.intercalate_cons_cons,
          List.intercalate_singleton, List.append_assoc, List.append_assoc]
        exact congrArg (fun x => one ++ ([' '] ++ x)) form
      | cons next front =>
        rw [List.cons_append] at form
        rw [List.cons_append, List.cons_append, List.intercalate_cons_cons, form]
        simp only [List.append_assoc]
  obtain ⟨name, kind, kind_, path_⟩ := all path (List.mem_append_right _ List.mem_cons_self)
  obtain ⟨some', letters⟩ := kind_letters kind_
  obtain ⟨letters', c, rfl⟩ : ∃ front c, kind = front ++ [c] := by
    rcases List.eq_nil_or_concat kind with rfl | ⟨front, c, rfl⟩
    · exact absurd rfl some'
    · exact ⟨front, c, List.concat_eq_append⟩
  have letter := letters c (List.mem_append_right _ List.mem_cons_self)
  have range := alpha_range letter
  rw [form]
  have dot : isWhitespace '.' = false := by decide
  rcases path_ with rfl | ⟨quote, quote_, rfl⟩
  · refine names_kind (a := trimStart (before ++ (ahead ++ name))) ?_ kind_
    have whole : before ++ (ahead ++ (name ++ '.' :: (letters' ++ [c])) ++ after) =
        (before ++ (ahead ++ name) ++ '.' :: letters') ++ c :: after := by
      simp only [List.append_assoc, List.cons_append, List.nil_append]
    rw [whole, trim_ends (solid_of_print (by omega) (by omega)) white, trimStart_solid dot,
      unquoted_other ⟨fun same => ?_, fun same => ?_⟩]
    · simp only [List.append_assoc, List.cons_append]
    · rw [same] at letter
      exact absurd letter (by decide)
    · rw [same] at letter
      exact absurd letter (by decide)
  · refine names_kind (a := trimStart (before ++ (ahead ++ quote :: name))) ?_ kind_
    have whole : before ++ (ahead ++ quote :: (name ++ '.' :: (letters' ++ [c] ++ [quote])) ++
        after) =
        (before ++ (ahead ++ quote :: name) ++ '.' :: (letters' ++ [c])) ++ quote :: after := by
      simp only [List.append_assoc, List.cons_append, List.nil_append]
    have solid : isWhitespace quote = false := by
      rcases quote_ with rfl | rfl <;> decide
    rw [whole, trim_ends solid white, trimStart_solid dot, unquoted_quote quote_]

/-- A line whose last character that is no space is neither a letter nor a quote names none. -/
theorem names_ends (solid : isWhitespace c = false) (other : c ≠ '"' ∧ c ≠ '\'')
    (apart_ : c.isAlpha = false) (white : White after) (a : List Char) :
    namesAnImage (a ++ c :: after) = false := by
  rw [namesAnImage_eq, trim_ends solid white, unquoted_other other]
  cases dot : splitOnce ['.'] (trimStart a ++ [c]).reverse with
  | none => rfl
  | some parts =>
    obtain ⟨kind, rest⟩ := parts
    rw [Option.any_some, Bool.eq_false_iff]
    intro some_
    obtain ⟨image, one, same⟩ := List.any_eq_true.1 some_
    have kind_ := List.mem_map_of_mem (f := String.toList) one
    rw [← beq_iff_eq.1 same] at kind_
    obtain ⟨some', letters⟩ := kind_letters kind_
    have here := (splitOnce_iff.1 dot).here
    rw [List.reverse_append, List.reverse_singleton, List.singleton_append] at here
    -- the kind ends with the line's last character
    cases kind with
    | nil => exact some' rfl
    | cons d kind =>
      obtain ⟨rfl, -⟩ := List.cons.inj here
      rw [letters c (List.mem_reverse.2 List.mem_cons_self)] at apart_
      cases apart_

/-! ## 2. A record, line by line -/

/-- What became of a line of a paste: it is kept, or taken out, with nothing in it or for the
    pictures whose paths it is. -/
inductive Fate where
  | kept
  | blank
  | pictures (paths : List (List Char))

def keptLines : List (List Char × Fate) → List (List Char)
  | [] => []
  | (line, .kept) :: more => line :: keptLines more
  | (_, .blank) :: more => keptLines more
  | (_, .pictures _) :: more => keptLines more

/-- How many lines were taken out for their pictures. -/
def pictureLines : List (List Char × Fate) → Nat
  | [] => 0
  | (_, .kept) :: more => pictureLines more
  | (_, .blank) :: more => pictureLines more
  | (_, .pictures _) :: more => pictureLines more + 1

/-- How many pictures these were. -/
def picturesOf : List (List Char × Fate) → Nat
  | [] => 0
  | (_, .kept) :: more => picturesOf more
  | (_, .blank) :: more => picturesOf more
  | (_, .pictures paths) :: more => paths.length + picturesOf more

/-- A record of a paste: its lines and what became of each, the numbers of the placeholders ahead
    of what is left, whether a blank line is between, and the wrapper with what stands after it. -/
structure PasteRecord where
  lines : List (List Char × Fate)
  images : List (List Char)
  apart_ : Bool
  wrapper : Option (List Char × List Char)

namespace PasteRecord

/-- What is left of the paste. -/
def words (r : PasteRecord) : List Char := ['\n'].intercalate (keptLines r.lines)

/-- What the wrapper puts after it. -/
def tail (r : PasteRecord) : List Char :=
  match r.wrapper with
  | none => []
  | some (attributes, after) => '\n' :: (closingTag attributes ++ after)

/-- What the wrapper puts ahead of it. -/
def head (r : PasteRecord) : List Char :=
  match r.wrapper with
  | none => []
  | some (attributes, _) => openingTag attributes

def item (r : PasteRecord) : List Char :=
  placeholders r.images ++
    ((if r.apart_ then ['\n', '\n'] else []) ++ (r.head ++ (r.words ++ r.tail)))

/-- A record of this paste: nothing attached and it is whole; or a placeholder for each picture
    whose path was on a line taken out, the lines with nothing in them all kept or all dropped. It
    stands bare or in a wrapper, after the placeholders at once or after a blank line. -/
structure Of (r : PasteRecord) (paste : List Char) : Prop where
  whole : r.lines.map Prod.fst = parted '\n' paste
  pictures : ∀ line paths, (line, Fate.pictures paths) ∈ r.lines → PictureLine paths line
  blank : ∀ line, (line, Fate.blank) ∈ r.lines → White line
  alike : (∀ line, (line, Fate.blank) ∉ r.lines) ∨
    ∀ line fate, (line, fate) ∈ r.lines → White line → fate = .blank
  counted : r.images.length = picturesOf r.lines
  numbers : ∀ digits ∈ r.images, digits ≠ [] ∧ ∀ c ∈ digits, c.isDigit = true
  plain : r.images = [] → (∀ one ∈ r.lines, one.2 = .kept) ∧ r.apart_ = false
  wrapped : ∀ attributes after, r.wrapper = some (attributes, after) →
    Attributes attributes ∧ Blank after ∧ (r.images ≠ [] → r.apart_ = true)

/-- A window's item that is such a record: behind blank space or none, its lines ended either
    way. -/
def Shows (r : PasteRecord) (record : List Char) : Prop :=
  ∃ blank, Blank blank ∧ Returned (blank ++ r.item) record

end PasteRecord

/-! ## 3. What its reader sees -/

/-- The pieces between the starts of the placeholders. -/
def between : List (List Char) → List (List Char)
  | [] => []
  | [digits] => [digits ++ [']']]
  | digits :: more => (digits ++ [']', ' ']) :: between more

theorem between_length (run : List (List Char)) : (between run).length = run.length := by
  fun_induction between run with
  | case1 => rfl
  | case2 => rfl
  | case3 digits more some_ ih => rw [List.length_cons, List.length_cons, ih]

theorem placeholders_between (run : List (List Char)) :
    image.intercalate ([] :: between run) = placeholders run := by
  fun_induction between run with
  | case1 => rfl
  | case2 digits =>
    rw [List.intercalate_cons_cons, List.intercalate_singleton, List.nil_append]
    rfl
  | case3 digits more some_ ih =>
    cases more with
    | nil => exact absurd rfl some_
    | cons next more =>
      obtain ⟨piece, pieces, form⟩ : ∃ piece pieces, between (next :: more) = piece :: pieces := by
        cases more with
        | nil => exact ⟨_, _, rfl⟩
        | cons last more => exact ⟨_, _, rfl⟩
      rw [form, List.intercalate_cons_cons, List.nil_append] at ih
      rw [form, List.intercalate_cons_cons, List.intercalate_cons_cons, placeholders, ← ih]
      · simp only [List.append_assoc, List.cons_append, List.nil_append]
      · exact some_

theorem mem_between {run : List (List Char)} {piece : List Char} (one : piece ∈ between run)
    (here : c ∈ piece) : c = ']' ∨ c = ' ' ∨ ∃ digits ∈ run, c ∈ digits := by
  fun_induction between run with
  | case1 => cases one
  | case2 digits =>
    rw [List.mem_singleton.1 one] at here
    rcases List.mem_append.1 here with here | here
    · exact .inr (.inr ⟨digits, List.mem_cons_self, here⟩)
    · exact .inl (List.mem_singleton.1 here)
  | case3 digits more some_ ih =>
    rcases List.mem_cons.1 one with rfl | one
    · rcases List.mem_append.1 here with here | here
      · exact .inr (.inr ⟨digits, List.mem_cons_self, here⟩)
      · simp only [List.mem_cons, List.not_mem_nil, or_false] at here
        exact here.imp id .inl
    · rcases ih one with sign | sign | ⟨other, one, here⟩
      · exact .inl sign
      · exact .inr (.inl sign)
      · exact .inr (.inr ⟨other, List.mem_cons_of_mem _ one, here⟩)

/-- The placeholders ahead of a text are counted. -/
theorem attachedIn_run {run : List (List Char)} {x : List Char}
    (apart_ : stripPrefix [' '] x = none) (numbers : Numbers run) :
    attachedIn (placeholders run ++ x) = run.length := by
  have taken : (placeholders run ++ x).take ((placeholders run ++ x).length - x.length) =
      placeholders run := by
    rw [List.length_append, Nat.add_sub_cancel, List.take_left]
  have out : ∀ piece ∈ [] :: between run, '[' ∉ piece := by
    intro piece one here
    rcases List.mem_cons.1 one with rfl | one
    · cases here
    · rcases mem_between one here with sign | sign | ⟨digits, one, here⟩
      · cases sign
      · cases sign
      · exact absurd ((numbers.2 digits one).2 _ here) (by decide)
  have begun : image.head? = some '[' := by rw [image_begun]; rfl
  rw [attachedIn, afterPlaceholders_run apart_ numbers]
  dsimp only
  rw [taken, ← placeholders_between, splitAll_joined begun (List.cons_ne_nil _ _) out,
    List.length_cons, between_length, Nat.add_sub_cancel]

theorem mem_parted {c : Char} {cs : List Char} (one : line ∈ parted '\n' cs) (here : c ∈ line) :
    c ∈ cs := by
  have line_ : '\n' ∉ line := parted_clear '\n' cs line one
  have inside : c ∈ joined '\n' (parted '\n' cs) :=
    List.mem_flatMap.2 ⟨line, one, List.mem_append_left _ here⟩
  rw [joined_parted] at inside
  rcases List.mem_append.1 inside with inside | inside
  · exact inside
  · rw [List.mem_singleton.1 inside] at here
    exact absurd here line_

theorem mem_keptLines {lines : List (List Char × Fate)} (one : line ∈ keptLines lines) :
    line ∈ lines.map Prod.fst := by
  fun_induction keptLines lines with
  | case1 => cases one
  | case2 other more ih =>
    rcases List.mem_cons.1 one with rfl | one
    · exact List.mem_cons_self
    · exact List.mem_cons_of_mem _ (ih one)
  | case3 other more ih => exact List.mem_cons_of_mem _ (ih one)
  | case4 other paths more ih => exact List.mem_cons_of_mem _ (ih one)

namespace PasteRecord

variable {r : PasteRecord} {paste record : List Char}

theorem Of.words_shown (of_ : r.Of paste) (shown_ : Shown paste) : Shown r.words := by
  intro c one
  rcases mem_intercalate one with one | ⟨line, there, here⟩
  · rw [List.mem_singleton.1 one]
    decide
  · have there := mem_keptLines there
    rw [of_.whole] at there
    exact shown_ c (mem_parted there here)

theorem Of.item_shown (of_ : r.Of paste) (shown_ : Shown paste) : Shown r.item := by
  have line : Shown ['\n'] := by
    intro c one
    rw [List.mem_singleton.1 one]
    decide
  have nothing : Shown [] := fun c one => (by cases one)
  have ahead : Shown (placeholders r.images) :=
    placeholders_all Shown.append image_shown (shown_all (by simp)) (shown_all (by simp)) nothing
      fun digits one c here => shown_digit ((of_.numbers digits one).2 c here)
  have gap : Shown (if r.apart_ then ['\n', '\n'] else []) := by
    split
    · exact line.append line
    · exact nothing
  refine ahead.append (gap.append ?_)
  cases wrapper : r.wrapper with
  | none =>
    rw [head, tail, wrapper]
    exact nothing.append ((of_.words_shown shown_).append nothing)
  | some parts =>
    obtain ⟨attributes, after⟩ := parts
    obtain ⟨attributes_, after_, -⟩ := of_.wrapped attributes after wrapper
    rw [head, tail, wrapper]
    exact (openingTag_shown attributes_).append ((of_.words_shown shown_).append
      (line.append ((closingTag_shown attributes_).append fun c one => (after_ c one).2)))

/-- What stands after the placeholders, where a header is the first of the words left. -/
theorem body_begun {rest : List Char} (begun : r.words = '[' :: 'C' :: rest) :
    ∃ x, (r.head ++ (r.words ++ r.tail) = '[' :: 'C' :: x ∨
      r.head ++ (r.words ++ r.tail) = '<' :: x) := by
  rw [begun]
  unfold head
  split
  · exact ⟨_, .inl rfl⟩
  · exact ⟨_, .inr rfl⟩

theorem Of.unwraps (of_ : r.Of paste) {rest : List Char} (begun : r.words = '[' :: 'C' :: rest) :
    unwrapped (r.head ++ (r.words ++ r.tail)) = r.words ++ r.tail := by
  cases wrapper : r.wrapper with
  | none =>
    rw [head, tail, wrapper, begun]
    rfl
  | some parts =>
    obtain ⟨attributes, after⟩ := parts
    obtain ⟨attributes_, -, -⟩ := of_.wrapped attributes after wrapper
    rw [head, tail, wrapper]
    refine unwrapped_opening attributes_ (contains_iff.2 ⟨r.words ++ ['\n'], after, ?_⟩)
    simp only [List.append_assoc, List.cons_append, List.nil_append]

/-- **What the reader sees of a record**: the words left of the paste, with what its wrapper puts
    after them, and as many pictures as there are placeholders. -/
theorem Of.reads (of_ : r.Of paste) (shown_ : Shown paste) {rest : List Char}
    (begun : r.words = '[' :: 'C' :: rest) (shows : r.Shows record) :
    pasteIn (trimStart (windowText record)) = r.words ++ r.tail ∧
      attachedIn (trimStart (windowText record)) = r.images.length := by
  obtain ⟨blank, blank_, returned⟩ := shows
  obtain ⟨x, body⟩ := body_begun begun
  -- the item begins with no space
  have solid : ∃ c more, r.item = c :: more ∧ isWhitespace c = false := by
    cases images : r.images with
    | nil =>
      rw [item, images, (of_.plain images).2]
      rcases body with body | body
      · exact ⟨'[', 'C' :: x, body, by decide⟩
      · exact ⟨'<', x, body, by decide⟩
    | cons digits more =>
      rw [item, images]
      exact placeholders_solid ⟨List.cons_ne_nil _ _, images ▸ of_.numbers⟩ _
  have sees : trimStart (windowText record) = r.item := by
    have plain : Shown (blank ++ r.item) :=
      Shown.append (fun c one => (blank_ c one).2) (of_.item_shown shown_)
    obtain ⟨c, more, form, solid⟩ := solid
    rw [windowText_returned plain returned, trimStart,
      List.dropWhile_append_of_pos fun c one => (blank_ c one).1, form,
      List.dropWhile_cons_of_neg (by rw [solid]; decide)]
  rw [sees]
  cases images : r.images with
  | nil =>
    have form : r.item = r.head ++ (r.words ++ r.tail) := by
      rw [item, images, (of_.plain images).2]
      rfl
    have none_ : afterPlaceholders r.item = none := by
      refine afterPlaceholders_none ?_
      rw [form, afterPlaceholder, image_begun]
      rcases body with body | body <;> rw [body] <;> rfl
    rw [pasteIn, attachedIn, none_, form]
    exact ⟨of_.unwraps begun, rfl⟩
  | cons digits more =>
    have numbers : Numbers r.images := ⟨by rw [images]; exact List.cons_ne_nil _ _, of_.numbers⟩
    have apart_ : stripPrefix [' ']
        ((if r.apart_ then ['\n', '\n'] else []) ++ (r.head ++ (r.words ++ r.tail))) = none := by
      split
      · rfl
      · rcases body with body | body <;> rw [body] <;> rfl
    have passed := afterPlaceholders_run apart_ numbers
    rw [← images, item, attachedIn_run apart_ numbers, pasteIn, passed]
    refine ⟨?_, rfl⟩
    dsimp only
    cases gap : r.apart_ with
    | true =>
      rw [if_pos rfl, stripPrefix_append]
      exact of_.unwraps begun
    | false =>
      -- what is wrapped stands apart
      have bare : r.wrapper = none := by
        cases wrapper : r.wrapper with
        | none => rfl
        | some parts =>
          have other := (of_.wrapped parts.1 parts.2 wrapper).2.2 numbers.1
          rw [gap] at other
          cases other
      rw [if_neg Bool.false_ne_true, head, tail, bare, begun]
      rfl

end PasteRecord

end ConsensFlow.Deliveries
