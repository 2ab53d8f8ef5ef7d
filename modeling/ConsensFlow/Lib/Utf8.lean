/-
  File:      ConsensFlow/Lib/Utf8.lean
  Subject:   A TEXT BY BYTE INDEXES: what a program reads of it that walks its UTF-8.

  * `size`, `codeAt` -- its length in bytes, and the byte at an index;
  * `codeAt_here`, `codeAt_ascii`, `codeAt_within` -- that byte, by the character it is of;
  * `cut`, `slice` -- the text at an index, and between two, `none` inside a character;
    **`cut_iff`**, `slice_mid`;
  * `Between` -- an index between two characters; `between_low`, `slice_bytes`;
  * `find`, `rfind` -- where a character is first, and last.
-/
import Mathlib

namespace Lib.Utf8

variable {text a b : List Char} {c : Char} {n : Nat}

/-! ## 1. Bytes -/

/-- The text's UTF-8. -/
def bytes (text : List Char) : List UInt8 := text.flatMap String.utf8EncodeChar

/-- Its length in bytes. -/
def size (text : List Char) : Nat := (text.map Char.utf8Size).sum

@[simp] theorem size_nil : size [] = 0 := rfl

@[simp] theorem size_cons (c : Char) (text : List Char) :
    size (c :: text) = c.utf8Size + size text := by
  simp [size]

@[simp] theorem size_append (a b : List Char) : size (a ++ b) = size a + size b := by
  simp [size]

theorem length_bytes (text : List Char) : (bytes text).length = size text := by
  induction text with
  | nil => rfl
  | cons c text ih =>
    rw [bytes, List.flatMap_cons, List.length_append, String.length_utf8EncodeChar, size_cons, ← ih]
    rfl

theorem size_eq_zero : size text = 0 ↔ text = [] := by
  cases text with
  | nil => exact ⟨fun _ => rfl, fun _ => rfl⟩
  | cons c text =>
    have some_ := c.utf8Size_pos
    rw [size_cons]
    exact ⟨fun none_ => by omega, fun none_ => by cases none_⟩

/-- A character of one byte. -/
def IsAscii (c : Char) : Prop := c.toNat < 0x80

instance (c : Char) : Decidable (IsAscii c) := Nat.decLt _ _

theorem utf8Size_ascii (ascii : IsAscii c) : c.utf8Size = 1 := by
  rw [Char.utf8Size_eq_one_iff, UInt32.le_iff_toNat_le]
  have low : c.val.toNat < 0x80 := ascii
  have bound : (127 : UInt32).toNat = 127 := rfl
  omega

theorem encode_ascii (ascii : IsAscii c) :
    String.utf8EncodeChar c = [UInt8.ofNat c.toNat] := by
  have low : c.val.toNat < 0x80 := ascii
  unfold String.utf8EncodeChar
  dsimp only
  rw [if_pos (by omega)]
  rfl

/-- The bytes of any other are not of one. -/
theorem encode_other (other : ¬IsAscii c) :
    ∀ x ∈ String.utf8EncodeChar c, 0x80 ≤ x.toNat := by
  have high : 0x80 ≤ c.val.toNat := Nat.not_lt.1 other
  have byte (n : Nat) (from_ : 0x80 ≤ n) (below : n < 0x100) : 0x80 ≤ (UInt8.ofNat n).toNat := by
    rw [UInt8.toNat_ofNat']
    omega
  unfold String.utf8EncodeChar
  dsimp only
  rw [if_neg (by omega)]
  intro x one
  split at one
  · simp only [List.mem_cons, List.not_mem_nil, or_false] at one
    rcases one with rfl | rfl <;> exact byte _ (by omega) (by omega)
  · split at one
    · simp only [List.mem_cons, List.not_mem_nil, or_false] at one
      rcases one with rfl | rfl | rfl <;> exact byte _ (by omega) (by omega)
    · simp only [List.mem_cons, List.not_mem_nil, or_false] at one
      rcases one with rfl | rfl | rfl | rfl <;> exact byte _ (by omega) (by omega)

/-! ## 2. The byte at an index -/

/-- The byte at an index, and none past the end. -/
def codeAt (text : List Char) (n : Nat) : Option UInt8 := (bytes text)[n]?

theorem codeAt_append (a : List Char) (c : Char) (b : List Char) {k : Nat} (in_ : k < c.utf8Size) :
    codeAt (a ++ c :: b) (size a + k) = (String.utf8EncodeChar c)[k]? := by
  have parts : bytes (a ++ c :: b) = bytes a ++ (String.utf8EncodeChar c ++ bytes b) := by
    rw [bytes, List.flatMap_append, List.flatMap_cons]
    rfl
  rw [codeAt, parts, List.getElem?_append_right (by rw [length_bytes]; omega), length_bytes,
    Nat.add_sub_cancel_left,
    List.getElem?_append_left (by rw [String.length_utf8EncodeChar]; exact in_)]

theorem codeAt_ascii (a : List Char) (ascii : IsAscii c) (b : List Char) :
    codeAt (a ++ c :: b) (size a) = some (UInt8.ofNat c.toNat) := by
  have here := codeAt_append a c b (k := 0) (by rw [utf8Size_ascii ascii]; exact Nat.one_pos)
  rw [Nat.add_zero, encode_ascii ascii] at here
  exact here

/-- A byte of a character that is not of one byte. -/
theorem codeAt_within (a : List Char) (other : ¬IsAscii c) (b : List Char) {k : Nat}
    (in_ : k < c.utf8Size) : ∃ x, codeAt (a ++ c :: b) (size a + k) = some x ∧ 0x80 ≤ x.toNat := by
  have bound : k < (String.utf8EncodeChar c).length := by rwa [String.length_utf8EncodeChar]
  refine ⟨(String.utf8EncodeChar c)[k], ?_, encode_other other _ (List.getElem_mem bound)⟩
  rw [codeAt_append a c b in_, List.getElem?_eq_getElem bound]

/-- An ASCII character's byte, where a character begins, is that character. -/
theorem codeAt_here {d : Char} (ascii : IsAscii d) :
    codeAt (a ++ c :: b) (size a) = some (UInt8.ofNat d.toNat) ↔ c = d := by
  have low : d.toNat < 0x80 := ascii
  constructor
  · intro here
    by_cases one : IsAscii c
    · have low' : c.toNat < 0x80 := one
      have same := congrArg UInt8.toNat (Option.some.inj ((codeAt_ascii a one b).symm.trans here))
      rw [UInt8.toNat_ofNat', UInt8.toNat_ofNat', Nat.mod_eq_of_lt (by omega),
        Nat.mod_eq_of_lt (by omega)] at same
      exact Char.toNat_inj.1 same
    · obtain ⟨x, at_, high⟩ := codeAt_within a one b (k := 0) c.utf8Size_pos
      rw [Nat.add_zero, here] at at_
      rw [← Option.some.inj at_, UInt8.toNat_ofNat'] at high
      omega
  · rintro rfl
    exact codeAt_ascii a ascii b

theorem codeAt_end (text : List Char) (far : size text ≤ n) : codeAt text n = none :=
  List.getElem?_eq_none (by rw [length_bytes]; exact far)

theorem codeAt_some (h : n < size text) : ∃ x, codeAt text n = some x :=
  ⟨_, List.getElem?_eq_getElem (by rw [length_bytes]; exact h)⟩

/-! ## 3. Cut at an index -/

/-- The text before an index and after it, `none` inside a character and past the end. -/
def cut : List Char → Nat → Option (List Char × List Char)
  | text, 0 => some ([], text)
  | [], _ + 1 => none
  | c :: text, n + 1 =>
    if c.utf8Size ≤ n + 1 then
      (cut text (n + 1 - c.utf8Size)).map fun (upto, rest) => (c :: upto, rest)
    else none

/-- **A text is cut between two of its characters.** -/
theorem cut_iff : cut text n = some (a, b) ↔ text = a ++ b ∧ size a = n := by
  fun_induction cut text n generalizing a with
  | case1 text =>
    constructor
    · intro h
      cases h
      exact ⟨rfl, rfl⟩
    · rintro ⟨rfl, none_⟩
      rw [size_eq_zero.1 none_]
      rfl
  | case2 n =>
    constructor
    · intro h
      cases h
    · rintro ⟨whole, width⟩
      rw [(List.append_eq_nil_iff.1 whole.symm).1] at width
      cases width
  | case3 c text n fits ih =>
    constructor
    · intro h
      obtain ⟨⟨upto, rest⟩, here, same⟩ := Option.map_eq_some_iff.1 h
      cases same
      obtain ⟨rfl, width⟩ := ih.1 here
      exact ⟨rfl, by rw [size_cons]; omega⟩
    · rintro ⟨whole, width⟩
      cases a with
      | nil => cases width
      | cons d a =>
        cases whole
        rw [size_cons] at width
        rw [ih.2 ⟨rfl, by omega⟩]
        rfl
  | case4 c text n wide =>
    constructor
    · intro h
      cases h
    · rintro ⟨whole, width⟩
      cases a with
      | nil => cases width
      | cons d a =>
        cases whole
        rw [size_cons] at width
        omega

theorem cut_append (a b : List Char) : cut (a ++ b) (size a) = some (a, b) := cut_iff.2 ⟨rfl, rfl⟩

/-- The text between two indexes, nothing where the end is before the start, and `none` where one
    of them is inside a character or past the end. -/
def slice (text : List Char) (start end_ : Nat) : Option (List Char) := do
  let (upto, _) ← cut text end_
  let _ ← cut text start
  if end_ < start then some []
  else (cut upto start).map Prod.snd

theorem slice_mid (a mid b : List Char) :
    slice (a ++ (mid ++ b)) (size a) (size a + size mid) = some mid := by
  have upto : cut (a ++ (mid ++ b)) (size a + size mid) = some (a ++ mid, b) :=
    cut_iff.2 ⟨by rw [List.append_assoc], size_append a mid⟩
  rw [slice, upto, cut_append]
  show (if _ then some [] else (cut (a ++ mid) (size a)).map Prod.snd) = some mid
  rw [if_neg (by omega), cut_append]
  rfl

theorem slice_from (a b : List Char) : slice (a ++ b) (size a) (size (a ++ b)) = some b := by
  have whole := slice_mid a b []
  rwa [List.append_nil, ← size_append] at whole

theorem slice_upto (a b : List Char) : slice (a ++ b) 0 (size a) = some a := by
  have whole := slice_mid [] a b
  rwa [List.nil_append, size_nil, Nat.zero_add] at whole

/-- Nothing is after the end. -/
theorem slice_back (a mid b : List Char) (some_ : mid ≠ []) :
    slice (a ++ (mid ++ b)) (size a + size mid) (size a) = some [] := by
  have from_ : cut (a ++ (mid ++ b)) (size a + size mid) = some (a ++ mid, b) :=
    cut_iff.2 ⟨by rw [List.append_assoc], size_append a mid⟩
  have wide : size mid ≠ 0 := fun none_ => some_ (size_eq_zero.1 none_)
  rw [slice, cut_append, from_]
  exact if_pos (by omega)

/-! ## 4. Between two characters -/

/-- An index between two characters. -/
def Between (text : List Char) (n : Nat) : Prop := ∃ a b, text = a ++ b ∧ size a = n

theorem between_zero (text : List Char) : Between text 0 := ⟨[], text, rfl, rfl⟩

theorem between_size (text : List Char) : Between text (size text) :=
  ⟨text, [], (List.append_nil _).symm, rfl⟩

/-- A byte below 0x80 is a character. -/
theorem low_at {x : UInt8} (here : codeAt text n = some x) (low : x.toNat < 0x80) :
    ∃ a c b, text = a ++ c :: b ∧ size a = n ∧ IsAscii c := by
  induction text generalizing n with
  | nil => cases here
  | cons c text ih =>
    have parts : bytes (c :: text) = String.utf8EncodeChar c ++ bytes text := List.flatMap_cons
    rcases Nat.lt_or_ge n c.utf8Size with inside | behind
    · by_cases ascii : IsAscii c
      · rw [utf8Size_ascii ascii] at inside
        exact ⟨[], c, text, rfl, by rw [size_nil]; omega, ascii⟩
      · obtain ⟨y, there, high⟩ := codeAt_within [] ascii text inside
        rw [List.nil_append, size_nil, Nat.zero_add, here] at there
        rw [← Option.some.inj there] at high
        omega
    · have later : codeAt text (n - c.utf8Size) = some x := by
        rw [codeAt, parts, List.getElem?_append_right
          (by rw [String.length_utf8EncodeChar]; exact behind),
          String.length_utf8EncodeChar] at here
        exact here
      obtain ⟨a, d, b, rfl, width, ascii⟩ := ih later
      exact ⟨c :: a, d, b, rfl, by rw [size_cons, width]; omega, ascii⟩

/-- Such a byte has a character's end before it and behind it. -/
theorem between_low {x : UInt8} (here : codeAt text n = some x) (low : x.toNat < 0x80) :
    Between text n ∧ Between text (n + 1) := by
  obtain ⟨a, c, b, whole, width, ascii⟩ := low_at here low
  refine ⟨⟨a, c :: b, whole, width⟩, a ++ [c], b, ?_, ?_⟩
  · rw [whole, List.append_assoc]
    rfl
  · rw [size_append, size_cons, utf8Size_ascii ascii, width]
    rfl

/-- What is cut out between two characters is the bytes between them. -/
theorem slice_bytes {m : Nat} (from_ : Between text m) (upto : Between text n) (less : m ≤ n) :
    ∃ kept, slice text m n = some kept ∧ bytes kept = ((bytes text).take n).drop m := by
  obtain ⟨a, b, whole, rfl⟩ := from_
  obtain ⟨a', b', whole', rfl⟩ := upto
  rcases List.append_eq_append_iff.1 (whole.symm.trans whole') with
    ⟨mid, head, rest⟩ | ⟨mid, head, rest⟩
  · refine ⟨mid, ?_, ?_⟩
    · rw [head, size_append, whole, rest]
      exact slice_mid a mid b'
    · have upto : (bytes text).take (size a') = bytes a' := by
        rw [whole', bytes, List.flatMap_append]
        exact List.take_left' (length_bytes a')
      rw [upto, head, bytes, bytes, List.flatMap_append]
      exact (List.drop_left' (length_bytes a)).symm
  · have none_ : mid = [] := by
      rw [head, size_append] at less
      exact size_eq_zero.1 (by omega)
    rw [none_, List.append_nil] at head
    refine ⟨[], ?_, ?_⟩
    · have nothing := slice_mid a' [] b'
      rw [size_nil, Nat.add_zero, List.nil_append, ← whole'] at nothing
      rw [head]
      exact nothing
    · rw [head, List.drop_of_length_le (by rw [List.length_take]; omega)]
      rfl

/-! ## 5. Where a character is -/

/-- Where a character is first. -/
def find (text : List Char) (c : Char) : Option Nat :=
  if c ∈ text then some (size (text.takeWhile (· ≠ c))) else none

/-- Where it is last. -/
def rfind (text : List Char) (c : Char) : Option Nat :=
  if c ∈ text then some (size ((text.reverse.dropWhile (· ≠ c)).tail.reverse)) else none

theorem takeWhile_out (out : c ∉ a) (b : List Char) :
    (a ++ c :: b).takeWhile (fun d => decide (d ≠ c)) = a := by
  have before : ∀ d ∈ a, decide (d ≠ c) = true := fun d one =>
    decide_eq_true fun same => out (by rwa [← same])
  rw [List.takeWhile_append_of_pos before, List.takeWhile_cons_of_neg (by simp), List.append_nil]

theorem find_some : find text c = some n ↔ ∃ a b, text = a ++ c :: b ∧ c ∉ a ∧ size a = n := by
  constructor
  · intro h
    unfold find at h
    split at h
    · rename_i one
      obtain ⟨a, b, rfl, out⟩ := List.eq_append_cons_of_mem one
      rw [takeWhile_out out] at h
      exact ⟨a, b, rfl, out, Option.some.inj h⟩
    · cases h
  · rintro ⟨a, b, rfl, out, rfl⟩
    rw [find, if_pos (List.mem_append_right _ List.mem_cons_self), takeWhile_out out]

theorem rfind_append (a : List Char) {b : List Char} (out : c ∉ b) :
    rfind (a ++ c :: b) c = some (size a) := by
  have back : (a ++ c :: b).reverse = b.reverse ++ c :: a.reverse := by
    rw [List.reverse_append, List.reverse_cons, List.append_assoc]
    rfl
  have after : ∀ d ∈ b.reverse, decide (d ≠ c) = true := fun d one =>
    decide_eq_true fun same => out (by rw [← same]; exact List.mem_reverse.1 one)
  rw [rfind, if_pos (List.mem_append_right _ List.mem_cons_self), back,
    List.dropWhile_append_of_pos after, List.dropWhile_cons_of_neg (by simp), List.tail_cons,
    List.reverse_reverse]

theorem rfind_none (out : c ∉ text) : rfind text c = none := if_neg out

end Lib.Utf8
