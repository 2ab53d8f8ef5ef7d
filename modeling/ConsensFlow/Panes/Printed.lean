/-
  File:      ConsensFlow/Panes/Printed.lean
  Subject:   WHAT IS PRINTED IS READ BACK (`cf-panes`, `screen/grid.rs`: `lines`).

  * `Grid.lines` -- the screen's lines as a person reads them: a row the text wrapped from joins the
    row below it;
  * `Parser.char_read` -- the bytes of a character are read as it, wherever they are cut;
  * `layOut` -- the row and the cells a text reaches, a wide character going whole to the next row;
  * `Grid.Shows` -- the INVARIANT: a grid that a text was printed on, from a blank one;
  * **`Screen.printed_is_read_back`** -- a text that fits a blank screen is its first line, and
    every other line is empty.
-/
import ConsensFlow.Panes.Screen
import ConsensFlow.Lib.Utf8

namespace ConsensFlow
namespace Panes

open Lib

/-! ## 1. Lines -/

/-- `char::is_whitespace`. -/
def isBlank (c : Char) : Bool :=
  (9 ≤ c.toNat && c.toNat ≤ 13) || (0x2000 ≤ c.toNat && c.toNat ≤ 0x200a) ||
    [0x20, 0x85, 0xa0, 0x1680, 0x2028, 0x2029, 0x202f, 0x205f, 0x3000].contains c.toNat

/-- `str::trim_end`. -/
def trimEnd (text : List Char) : List Char := text.rdropWhile isBlank

/-- The characters of a row's cells. -/
def Row.text (row : Row) : List Char := row.cells.filter (· != secondHalf)

/-- The lines of some rows, the first of which goes on with `line`. -/
def linesFrom : List Row → List Char → List (List Char)
  | [], line => if line.isEmpty then [] else [trimEnd line]
  | row :: rows, line =>
    if row.wrapped then linesFrom rows (line ++ row.text)
    else trimEnd (line ++ row.text) :: linesFrom rows []

/-- `lines`. -/
def Grid.lines (g : Grid) : List (List Char) := linesFrom g.cells []

/-! ## 2. A character's bytes -/

namespace Parser

/-- A parser between two characters, outside any sequence. -/
structure Between (p : Parser) : Prop where
  state : p.state = .ground
  whole : p.partial_ = []

/-- Some bytes, each read in turn. -/
def advances (p : Parser) : List UInt8 → Parser × List Action
  | [] => (p, [])
  | byte :: bytes =>
    let read := p.advance byte
    let rest := read.1.advances bytes
    (rest.1, read.2 ++ rest.2)

theorem firstChar_encode (c : Char) : firstChar (String.utf8EncodeChar c) = c := by
  have same : (⟨(String.utf8EncodeChar c).toArray⟩ : ByteArray) =
      (String.ofList [c]).toByteArray := by
    rw [String.toByteArray_ofList, List.utf8Encode_singleton]
    exact ByteArray.ext List.data_toByteArray.symm
  have valid : (String.ofList [c]).toByteArray.IsValidUTF8 := (String.ofList [c]).isValidUTF8
  have read : String.fromUTF8? (String.ofList [c]).toByteArray = some (String.ofList [c]) := by
    rw [String.fromUTF8?, dif_pos valid]
    rfl
  rw [firstChar, same, read, Option.bind_some, String.toList_ofList]
  rfl

/-- A byte that goes on with a character. -/
def Follows (byte : UInt8) : Prop := 0x80 ≤ byte.toNat ∧ byte.toNat ≤ 0xBF

/-- The parser with the start of a character in hand, or none. -/
def holding (p : Parser) (bytes : List UInt8) : Parser := { p with partial_ := bytes }

theorem advance_ground {p : Parser} (ground : p.state = .ground) (byte : UInt8) :
    p.advance byte = p.ground byte := by
  rw [advance, ground]

theorem advance_follows {p : Parser} (ground : p.state = .ground) (begun : p.partial_ ≠ [])
    {byte : UInt8} (follows : Follows byte) : p.advance byte =
      if (p.partial_ ++ [byte]).length = p.needed then
        (p.holding [], [.print (firstChar (p.partial_ ++ [byte]))])
      else (p.holding (p.partial_ ++ [byte]), []) := by
  have more : ¬p.partial_.isEmpty = true := by
    rw [List.isEmpty_iff]
    exact begun
  rw [advance_ground ground, Parser.ground, if_neg more, if_pos (show _ ∧ _ from follows)]
  rfl

/-- The rest of a character begun completes it. -/
theorem advances_rest {rest : List UInt8} : ∀ {p : Parser}, p.state = .ground → p.partial_ ≠ [] →
    rest ≠ [] → (∀ byte ∈ rest, Follows byte) → p.partial_.length + rest.length = p.needed →
      p.advances rest = (p.holding [], [.print (firstChar (p.partial_ ++ rest))]) := by
  induction rest with
  | nil => exact fun _ _ some_ => absurd rfl some_
  | cons byte rest ih =>
    intro p ground begun _ follow length
    rw [List.length_cons] at length
    rw [advances, advance_follows ground begun (follow byte List.mem_cons_self),
      List.length_append, List.length_singleton]
    cases rest with
    | nil =>
      rw [if_pos (show p.partial_.length + 1 = p.needed from length)]
      rfl
    | cons next rest =>
      rw [List.length_cons] at length
      have held : (p.holding (p.partial_ ++ [byte])).advances (next :: rest) =
          (p.holding [], [.print (firstChar ((p.partial_ ++ [byte]) ++ next :: rest))]) := by
        refine ih ground (by simp [holding]) (List.cons_ne_nil _ _)
          (fun b in_ => follow b (List.mem_cons_of_mem _ in_)) ?_
        show (p.partial_ ++ [byte]).length + (rest.length + 1) = p.needed
        rw [List.length_append, List.length_singleton]
        omega
      rw [if_neg (by omega)]
      dsimp only
      rw [held, List.append_assoc]
      rfl

/-- How many bytes a character that begins with this one has, where it has several. -/
def Begins (byte : UInt8) (length : Nat) : Prop :=
  (0xC2 ≤ byte.toNat ∧ byte.toNat ≤ 0xDF ∧ length = 2) ∨
    (0xE0 ≤ byte.toNat ∧ byte.toNat ≤ 0xEF ∧ length = 3) ∨
    (0xF0 ≤ byte.toNat ∧ byte.toNat ≤ 0xF4 ∧ length = 4)

theorem advance_begins {p : Parser} (between : p.Between) {byte : UInt8} {length : Nat}
    (begins : Begins byte length) : p.advance byte = (p.startCharacter byte length, []) := by
  rw [advance_ground between.state, Parser.ground, between.whole, List.isEmpty_nil, if_pos rfl,
    plain]
  rcases begins with ⟨low, high, rfl⟩ | ⟨low, high, rfl⟩ | ⟨low, high, rfl⟩
  · rw [if_neg (by omega), if_neg (by omega), if_neg (by omega), if_neg (by omega),
      if_neg (by omega), if_pos ⟨low, high⟩]
  · rw [if_neg (by omega), if_neg (by omega), if_neg (by omega), if_neg (by omega),
      if_neg (by omega), if_neg (by omega), if_pos ⟨low, high⟩]
  · rw [if_neg (by omega), if_neg (by omega), if_neg (by omega), if_neg (by omega),
      if_neg (by omega), if_neg (by omega), if_neg (by omega), if_pos ⟨low, high⟩]

/-- The bytes of a character of several. -/
theorem encode_several {c : Char} (several : 0x80 ≤ c.toNat) : ∃ byte rest,
    String.utf8EncodeChar c = byte :: rest ∧ Begins byte (rest.length + 1) ∧ rest ≠ [] ∧
      ∀ b ∈ rest, Follows b := by
  have valid := c.valid
  have high : 0x80 ≤ c.val.toNat := several
  have bound : c.val.toNat < 0x110000 := by
    rcases c.valid with low | high
    · have small : c.val.toNat < 0xd800 := low
      omega
    · exact high.2
  have follows (n : Nat) (from_ : 0x80 ≤ n) (upto : n ≤ 0xBF) : Follows (UInt8.ofNat n) := by
    have same : (UInt8.ofNat n).toNat = n := by
      rw [UInt8.toNat_ofNat']
      omega
    exact ⟨by omega, by omega⟩
  have value {n : Nat} (below : n < 0x100) : (UInt8.ofNat n).toNat = n := by
    rw [UInt8.toNat_ofNat']
    omega
  unfold String.utf8EncodeChar
  dsimp only
  rw [if_neg (by omega)]
  split
  · refine ⟨_, _, rfl, .inl ⟨?_, ?_, rfl⟩, List.cons_ne_nil _ _, ?_⟩
    · rw [value (by omega)]
      omega
    · rw [value (by omega)]
      omega
    · intro b one
      rw [List.mem_singleton.1 one]
      exact follows _ (by omega) (by omega)
  · split
    · refine ⟨_, _, rfl, .inr (.inl ⟨?_, ?_, rfl⟩), List.cons_ne_nil _ _, ?_⟩
      · rw [value (by omega)]
        omega
      · rw [value (by omega)]
        omega
      · intro b one
        simp only [List.mem_cons, List.not_mem_nil, or_false] at one
        rcases one with rfl | rfl <;> exact follows _ (by omega) (by omega)
    · refine ⟨_, _, rfl, .inr (.inr ⟨?_, ?_, rfl⟩), List.cons_ne_nil _ _, ?_⟩
      · rw [value (by omega)]
        omega
      · rw [value (by omega)]
        omega
      · intro b one
        simp only [List.mem_cons, List.not_mem_nil, or_false] at one
        rcases one with rfl | rfl | rfl <;> exact follows _ (by omega) (by omega)

/-- No control character: one that takes a cell. -/
theorem not_control {c : Char} (wide : cellWidth c ≠ 0) :
    0x20 ≤ c.toNat ∧ (c.toNat < 0x7F ∨ 0xA0 ≤ c.toNat) := by
  by_contra control
  refine wide ?_
  unfold cellWidth
  dsimp only
  rw [if_pos]
  simp only [List.any_cons, List.any_nil, Bool.or_false, Bool.or_eq_true, Bool.and_eq_true,
    decide_eq_true_eq]
  omega

/-- **The bytes of a character are read as it.** -/
theorem char_read {p : Parser} (between : p.Between) {c : Char} (wide : cellWidth c ≠ 0) :
    ∃ p', p.advances (String.utf8EncodeChar c) = (p', [.print c]) ∧ p'.Between := by
  obtain ⟨low, del⟩ := not_control wide
  by_cases ascii : c.toNat < 0x80
  · refine ⟨p, ?_, between⟩
    have value : (UInt8.ofNat c.toNat).toNat = c.toNat := by
      rw [UInt8.toNat_ofNat']
      omega
    rw [Utf8.encode_ascii ascii, advances, advance_ground between.state, Parser.ground,
      between.whole, List.isEmpty_nil, if_pos rfl, plain]
    rw [value, if_neg (by omega), if_neg (by omega), if_neg (by omega), if_pos (by omega),
      Char.ofNat_toNat]
    rfl
  · obtain ⟨byte, rest, bytes, begins, some_, follow⟩ := encode_several (Nat.not_lt.1 ascii)
    have read : (p.startCharacter byte (rest.length + 1)).advances rest = _ :=
      advances_rest between.state (by simp [startCharacter]) some_ follow
        (by simp [startCharacter, between.whole, Nat.add_comm])
    refine ⟨(p.startCharacter byte (rest.length + 1)).holding [], ?_, between.state, rfl⟩
    have whole : (p.startCharacter byte (rest.length + 1)).partial_ = [byte] := by
      rw [startCharacter, between.whole]
      rfl
    rw [whole, List.singleton_append, ← bytes, firstChar_encode] at read
    rw [bytes, advances, advance_begins between begins]
    dsimp only
    rw [read]
    rfl

theorem advances_append (p : Parser) (bytes more : List UInt8) :
    p.advances (bytes ++ more) =
      (((p.advances bytes).1.advances more).1,
        (p.advances bytes).2 ++ ((p.advances bytes).1.advances more).2) := by
  induction bytes generalizing p with
  | nil => rfl
  | cons byte bytes ih =>
    rw [List.cons_append, advances, advances, ih]
    dsimp only
    rw [List.append_assoc]

/-- The bytes of a text are read as its characters. -/
theorem text_read {text : List Char} (wide : ∀ c ∈ text, cellWidth c ≠ 0) {p : Parser}
    (between : p.Between) :
    ∃ p', p.advances (Utf8.bytes text) = (p', text.map Action.print) ∧ p'.Between := by
  induction text generalizing p with
  | nil => exact ⟨p, rfl, between⟩
  | cons c text ih =>
    obtain ⟨p₁, first, between₁⟩ := char_read between (wide c List.mem_cons_self)
    obtain ⟨p₂, rest, between₂⟩ := ih (fun d in_ => wide d (List.mem_cons_of_mem c in_)) between₁
    refine ⟨p₂, ?_, between₂⟩
    have bytes : Utf8.bytes (c :: text) = String.utf8EncodeChar c ++ Utf8.bytes text := rfl
    rw [bytes, advances_append, first, rest]
    rfl

end Parser

/-- What is fed to a screen is what its parser reads of it, done to the grid. -/
theorem Screen.feed_eq (s : Screen) (bytes : List UInt8) : s.feed bytes =
    ((s.parser.advances bytes).2.foldlM Grid.perform s.grid).map
      fun grid => ⟨(s.parser.advances bytes).1, grid⟩ := by
  induction bytes generalizing s with
  | nil => rfl
  | cons byte bytes ih =>
    have step : s.feed (byte :: bytes) = (s.byte byte).bind fun s => s.feed bytes := rfl
    rw [step, Screen.byte, Parser.advances]
    dsimp only
    rw [List.foldlM_append]
    cases (s.parser.advance byte).2.foldlM Grid.perform s.grid with
    | none => rfl
    | some grid => exact ih ⟨(s.parser.advance byte).1, grid⟩

/-! ## 3. Where a text goes -/

/-- The row, and how many of its cells, a character takes the cursor to: one that has no room in its
    row goes to the next. -/
def advanceTo (cols : Nat) (at_ : Nat × Nat) (c : Char) : Nat × Nat :=
  if at_.2 + cellWidth c ≤ cols then (at_.1, at_.2 + cellWidth c) else (at_.1 + 1, cellWidth c)

/-- The row a text reaches from the top, and how many of its cells. -/
def layOut (cols : Nat) (text : List Char) : Nat × Nat := text.foldl (advanceTo cols) (0, 0)

theorem advanceTo_row (cols : Nat) (at_ : Nat × Nat) (text : List Char) :
    at_.1 ≤ (text.foldl (advanceTo cols) at_).1 := by
  induction text generalizing at_ with
  | nil => exact Nat.le_refl _
  | cons c text ih =>
    refine Nat.le_trans ?_ (ih (advanceTo cols at_ c))
    unfold advanceTo
    split
    · exact Nat.le_refl _
    · exact Nat.le_succ _

/-- The row a text is being drawn on: what is on it, and the blanks behind. -/
def rowOf (drawn : List Char) (styled : List Bool) (left : Nat) : Row where
  cells := drawn ++ List.replicate left ' '
  styled := styled
  wrapped := false

/-- The cells of rows, as characters. -/
def said (cells : List Char) : List Char := cells.filter (· != secondHalf)

/-- **A grid that a text was printed on from a blank one**: the rows above, each filled and gone on
    from, the row it reaches, and blank rows below. -/
structure Grid.Shows (g : Grid) (text : List Char) (above : List Row) (drawn : List Char)
    (styled : List Bool) (left below : Nat) : Prop where
  cells : g.cells = above ++ rowOf drawn styled left :: List.replicate below (Row.blank g.cols)
  row : above.length = g.row
  wrapped : ∀ row ∈ above, row.wrapped = true
  rows : g.row + 1 + below = g.rows
  cols : drawn.length + left = g.cols
  styled : styled.length = g.cols
  text : text = said ((above.flatMap Row.cells) ++ drawn)
  bottom : g.bottom = g.rows - 1
  autowrap : g.autowrap = true

/-- The cursor is behind what is drawn on its row, or at the end of a full row. -/
def Grid.Behind (g : Grid) (drawn : List Char) (left : Nat) : Prop :=
  (left = 0 ∧ g.pendingWrap = true ∧ g.col = g.cols - 1) ∨
    (left ≠ 0 ∧ g.pendingWrap = false ∧ g.col = drawn.length)

namespace Grid

variable {g : Grid} {text above_ drawn : List Char} {above below : List Row} {row next : Row}

/-- A step of the row the cursor is on. -/
theorem onRow_eq (cells : g.cells = above ++ row :: below) (here : above.length = g.row)
    {step : Row → Option Row} (stepped : step row = some next) :
    g.onRow step = some { g with cells := above ++ next :: below } := by
  have found : g.cells[g.row]? = some row := by
    rw [cells, ← here, List.getElem?_append_right (Nat.le_refl _), Nat.sub_self]
    rfl
  have set : Vec.set g.row next g.cells = some (above ++ next :: below) := by
    rw [Vec.set, if_pos, cells, ← here, List.set_append_right _ _ (Nat.le_refl _), Nat.sub_self]
    · rfl
    · rw [cells, List.length_append, List.length_cons]
      omega
  rw [onRow, found]
  show (step row).bind _ = _
  rw [stepped, Option.bind_some, set]
  rfl

section

variable {styled : List Bool} {left rest : Nat} {c : Char} {width : Nat}

theorem said_append (a b : List Char) : said (a ++ b) = said a ++ said b := List.filter_append ..

/-- The text going on in the row below, where there is one inside the region. -/
theorem wrap_eq (cells : g.cells = above ++ row :: below) (here : above.length = g.row)
    (inside : g.row ≠ g.bottom) (room : g.row + 1 < g.rows) :
    g.wrap = some { g with
      cells := above ++ { row with wrapped := true } :: below, pendingWrap := false
      row := g.row + 1, col := 0 } := by
  have marked : g.onRow (fun row => some { row with wrapped := true }) = _ :=
    onRow_eq cells here rfl
  rw [wrap, marked]
  show (lineFeed _).bind _ = _
  rw [lineFeed]
  dsimp only
  rw [if_neg inside, if_pos room]
  rfl

/-- A full row is gone on from in the row below. -/
theorem Shows.wraps (h : g.Shows text above drawn styled 0 (rest + 1)) :
    ∃ g' above', g.wrap = some g' ∧
      g'.Shows text above' [] (List.replicate g.cols false) g.cols rest ∧
      g'.cols = g.cols ∧ g'.rows = g.rows ∧ g'.pendingWrap = false ∧ g'.col = 0 ∧
      g'.row = g.row + 1 := by
  have rows := h.rows
  have bottom := h.bottom
  refine ⟨_, above ++ [{ rowOf drawn styled 0 with wrapped := true }],
    wrap_eq h.cells h.row (by omega) (by omega), ⟨?_, ?_, ?_, ?_, ?_, ?_, ?_, ?_, ?_⟩,
    rfl, rfl, rfl, rfl, rfl⟩
  · show above ++ _ :: List.replicate (rest + 1) (Row.blank g.cols) = _
    rw [List.replicate_succ, List.append_assoc, List.singleton_append]
    rfl
  · show (above ++ [_]).length = g.row + 1
    rw [List.length_append, h.row]
    rfl
  · intro row one
    rcases List.mem_append.1 one with one | one
    · exact h.wrapped row one
    · rw [List.mem_singleton.1 one]
  · show g.row + 1 + 1 + rest = g.rows
    omega
  · show 0 + g.cols = g.cols
    omega
  · exact List.length_replicate
  · rw [List.flatMap_append, List.append_nil, h.text]
    simp [rowOf]
  · exact bottom
  · exact h.autowrap

theorem set_behind (drawn : List Char) (c : Char) (left : Nat) :
    Vec.set drawn.length c (drawn ++ List.replicate (left + 1) ' ') =
      some ((drawn ++ [c]) ++ List.replicate left ' ') := by
  rw [Vec.set, if_pos, List.set_append_right _ _ (Nat.le_refl _), Nat.sub_self,
    List.replicate_succ, List.append_assoc]
  · rfl
  · rw [List.length_append, List.length_replicate]
    omega

/-- One more cell drawn behind what is drawn. -/
theorem draw_behind (length : styled.length = drawn.length + (left + 1)) (shade : Bool) :
    ∃ styled', (rowOf drawn styled (left + 1)).draw drawn.length c shade =
        some (rowOf (drawn ++ [c]) styled' left) ∧ styled'.length = styled.length := by
  refine ⟨styled.set drawn.length shade, ?_, List.length_set⟩
  have set : Vec.set drawn.length shade styled = some (styled.set drawn.length shade) :=
    if_pos (by omega)
  rw [Row.draw, rowOf]
  dsimp only
  rw [set_behind, set]
  rfl

/-- What `put` does to its row. -/
def drawing (c : Char) (width col : Nat) (shade : Bool) (row : Row) : Option Row := do
  let row ← row.draw col c shade
  if width = 2 then row.draw (col + 1) secondHalf shade else some row

/-- The cells of a character drawn behind what is drawn, with room for it. -/
theorem drawing_behind (length : styled.length = drawn.length + left) (shade : Bool)
    (size : width = 1 ∨ width = 2) (room : width ≤ left) (shown : c ≠ secondHalf) :
    ∃ drawn' styled', drawing c width drawn.length shade (rowOf drawn styled left) =
        some (rowOf drawn' styled' (left - width)) ∧ drawn'.length = drawn.length + width ∧
      said drawn' = said drawn ++ [c] ∧ styled'.length = styled.length := by
  have one : said [c] = [c] := List.filter_eq_self.2 fun d in_ => by
    rw [List.mem_singleton.1 in_]
    exact bne_iff_ne.2 shown
  rcases size with rfl | rfl
  · obtain ⟨left, rfl⟩ : ∃ n, left = n + 1 := ⟨left - 1, by omega⟩
    obtain ⟨styled', drew, same⟩ := draw_behind (c := c) length shade
    refine ⟨drawn ++ [c], styled', ?_, List.length_append, ?_, same⟩
    · rw [drawing, drew]
      rfl
    · rw [said_append, one]
  · obtain ⟨left, rfl⟩ : ∃ n, left = n + 2 := ⟨left - 2, by omega⟩
    have length₀ : styled.length = drawn.length + (left + 1 + 1) := length
    obtain ⟨styled₁, first, same₁⟩ := draw_behind (c := c) length₀ shade
    have length₁ : styled₁.length = (drawn ++ [c]).length + (left + 1) := by
      rw [same₁, length, List.length_append, List.length_singleton]
      omega
    obtain ⟨styled₂, second, same₂⟩ := draw_behind (c := secondHalf) length₁ shade
    rw [List.length_append, List.length_singleton] at second
    refine ⟨drawn ++ [c] ++ [secondHalf], styled₂, ?_, ?_, ?_, same₂.trans same₁⟩
    · rw [drawing, first]
      exact second
    · rw [List.length_append, List.length_append]
      rfl
    · rw [said_append, said_append, one]
      exact List.append_nil _

/-- A character drawn behind what is drawn, with room for it. -/
theorem Shows.puts (h : g.Shows text above drawn styled left rest) (col : g.col = drawn.length)
    (single : g.pendingWrap = false)
    (size : width = 1 ∨ width = 2) (room : width ≤ left) (shown : c ≠ secondHalf) :
    ∃ g' drawn' styled', g.put c width = some g' ∧
      g'.Shows (text ++ [c]) above drawn' styled' (left - width) rest ∧
      g'.Behind drawn' (left - width) ∧ drawn'.length = drawn.length + width ∧
      g'.cols = g.cols ∧ g'.rows = g.rows ∧ g'.row = g.row := by
  have cols := h.cols
  obtain ⟨drawn', styled', drew, length, here, shades⟩ :=
    drawing_behind (h.styled.trans cols.symm) (g.coloured || g.faint) size room shown
  rw [← col] at drew
  have rowed : g.onRow (drawing c width g.col (g.coloured || g.faint)) = _ :=
    onRow_eq h.cells h.row drew
  have put (col' : Nat) (ends : Bool)
      (moved : (if g.col + width ≥ g.cols then (g.cols - 1, true) else (g.col + width, false)) =
        (col', ends)) : g.put c width = some { g with
          cells := above ++ rowOf drawn' styled' (left - width) ::
            List.replicate rest (Row.blank g.cols)
          col := col', pendingWrap := ends, last := some c } := by
    have last : Vec.sub g.cols 1 = some (g.cols - 1) := Vec.sub_eq (by omega)
    rw [Grid.put]
    show (g.onRow (drawing c width g.col (g.coloured || g.faint))).bind _ = _
    rw [rowed, Option.bind_some]
    dsimp only
    by_cases full : g.col + width ≥ g.cols
    · rw [if_pos full] at moved ⊢
      obtain ⟨rfl, rfl⟩ := Prod.mk.inj moved
      rw [last]
      rfl
    · rw [if_neg full] at moved ⊢
      obtain ⟨rfl, rfl⟩ := Prod.mk.inj moved
      rw [single]
  have said_ : text ++ [c] = said (above.flatMap Row.cells ++ drawn') := by
    rw [h.text, said_append, said_append, here, List.append_assoc]
  by_cases full : g.col + width ≥ g.cols
  · refine ⟨_, drawn', styled', put _ _ (if_pos full),
      ⟨rfl, h.row, h.wrapped, h.rows, ?_, ?_, said_, h.bottom, h.autowrap⟩,
      .inl ⟨by omega, rfl, rfl⟩, length, rfl, rfl, rfl⟩
    · show drawn'.length + (left - width) = g.cols
      omega
    · exact shades.trans h.styled
  · refine ⟨_, drawn', styled', put _ _ (if_neg full),
      ⟨rfl, h.row, h.wrapped, h.rows, ?_, ?_, said_, h.bottom, h.autowrap⟩,
      .inr ⟨by omega, rfl, ?_⟩, length, rfl, rfl, rfl⟩
    · show drawn'.length + (left - width) = g.cols
      omega
    · exact shades.trans h.styled
    · show g.col + width = drawn'.length
      omega

/-- A row with one cell left, filled with a cell that has no text in it. -/
theorem Shows.halved (h : g.Shows text above drawn styled 1 rest) (col : g.col = drawn.length) :
    ∃ g', g.onRow (fun row => row.leaveHalf g.col) = some g' ∧
      g'.Shows text above (drawn ++ [secondHalf]) styled 0 rest ∧
      g'.cols = g.cols ∧ g'.rows = g.rows ∧ g'.row = g.row := by
  have left : (rowOf drawn styled 1).leaveHalf g.col =
      some (rowOf (drawn ++ [secondHalf]) styled 0) := by
    rw [Row.leaveHalf, rowOf, col]
    dsimp only
    rw [set_behind]
    rfl
  refine ⟨_, onRow_eq h.cells h.row left, ⟨rfl, h.row, h.wrapped, h.rows, ?_, h.styled, ?_,
    h.bottom, h.autowrap⟩, rfl, rfl, rfl⟩
  · rw [List.length_append]
    exact h.cols
  · rw [h.text, ← List.append_assoc, said_append _ [secondHalf]]
    exact (List.append_nil _).symm

end

/-- A text was printed on a blank grid, and reached a row and some of its cells. -/
def Printed (g : Grid) (text : List Char) (reached : Nat × Nat) : Prop :=
  ∃ above drawn styled left below, g.Shows text above drawn styled left below ∧
    g.Behind drawn left ∧ reached = (g.row, drawn.length)

theorem width_cases {c : Char} (wide : cellWidth c ≠ 0) : cellWidth c = 1 ∨ cellWidth c = 2 := by
  unfold cellWidth at wide ⊢
  dsimp only at wide ⊢
  split_ifs at wide ⊢
  · exact absurd rfl wide
  · exact absurd rfl wide
  · exact .inr rfl
  · exact .inl rfl

theorem shown_of_width {c : Char} (wide : cellWidth c ≠ 0) : c ≠ secondHalf := by
  rintro rfl
  exact wide rfl

/-- A character put at the start of a row just gone to. -/
theorem printed_below {g₁ : Grid} {c : Char} {styled : List Bool} {rest : Nat}
    (shows_ : g₁.Shows text above [] styled g₁.cols rest) (col : g₁.col = 0)
    (single : g₁.pendingWrap = false) (room : 2 ≤ g₁.cols) (wide : cellWidth c ≠ 0) :
    ∃ g', g₁.put c (cellWidth c) = some g' ∧ g'.Printed (text ++ [c]) (g₁.row, cellWidth c) ∧
      g'.cols = g₁.cols ∧ g'.rows = g₁.rows := by
  have size := width_cases wide
  obtain ⟨g', drawn, styled', put, shows', behind, length, cols, rows, row⟩ :=
    shows_.puts col single size (by omega) (shown_of_width wide)
  rw [List.length_nil, Nat.zero_add] at length
  exact ⟨g', put, ⟨_, _, _, _, _, shows', behind, by rw [row, length]⟩, cols, rows⟩

/-- A character printed, from where a full row was left. -/
theorem print_eq {c : Char} (wide : cellWidth c ≠ 0) {g₁ : Grid} (left : g.wrapPending = some g₁)
    (single : g₁.pendingWrap = false) :
    g.print c = (g₁.place (cellWidth c)).bind fun placed => placed.1.put c placed.2 := by
  have same : ({ g₁ with pendingWrap := false } : Grid) = g₁ := by rw [← single]
  rw [Grid.print]
  dsimp only
  rw [if_neg wide, left]
  show (place { g₁ with pendingWrap := false } (cellWidth c)).bind _ = _
  rw [same]

/-- **One more character of a text that fits.** -/
theorem print_step {reached : Nat × Nat} {c : Char} (printed : g.Printed text reached)
    (room : 2 ≤ g.cols) (wide : cellWidth c ≠ 0) (fits : (advanceTo g.cols reached c).1 < g.rows) :
    ∃ g', g.print c = some g' ∧ g'.Printed (text ++ [c]) (advanceTo g.cols reached c) ∧
      g'.cols = g.cols ∧ g'.rows = g.rows := by
  obtain ⟨above, drawn, styled, left, below, shows_, behind, rfl⟩ := printed
  have size := width_cases wide
  have cols := shows_.cols
  have rows := shows_.rows
  rcases behind with ⟨rfl, pending, -⟩ | ⟨some_, single, col⟩
  · -- The row is full: the character goes to the next.
    have reach : advanceTo g.cols (g.row, drawn.length) c = (g.row + 1, cellWidth c) :=
      if_neg (by omega)
    rw [reach] at fits ⊢
    obtain ⟨below, rfl⟩ : ∃ n, below = n + 1 := ⟨below - 1, by omega⟩
    obtain ⟨g₁, above₁, wrapped, shows₁, cols₁, rows₁, single₁, col₁, row₁⟩ := shows_.wraps
    rw [← cols₁] at shows₁ room
    obtain ⟨g₂, put, printed₂, cols₂, rows₂⟩ := printed_below shows₁ col₁ single₁ room wide
    have left : g.wrapPending = some g₁ := (if_pos ⟨pending, shows_.autowrap⟩).trans wrapped
    refine ⟨g₂, ?_, row₁ ▸ printed₂, cols₂.trans cols₁, rows₂.trans rows₁⟩
    rw [print_eq wide left single₁, place, if_neg (by omega)]
    exact put
  · have still : g.wrapPending = some g := if_neg fun both => by
      rw [single] at both
      exact absurd both.1 Bool.false_ne_true
    rw [print_eq wide still single]
    by_cases enough : cellWidth c ≤ left
    · have reach : advanceTo g.cols (g.row, drawn.length) c =
          (g.row, drawn.length + cellWidth c) := if_pos (show drawn.length + _ ≤ _ by omega)
      obtain ⟨g₂, drawn₂, styled₂, put, shows₂, behind₂, length₂, cols₂, rows₂, row₂⟩ :=
        shows_.puts col single size enough (shown_of_width wide)
      rw [place, if_neg (by omega), reach]
      exact ⟨g₂, put, ⟨_, _, _, _, _, shows₂, behind₂, by rw [row₂, length₂]⟩, cols₂, rows₂⟩
    · -- A wide character and one cell: the cell stays empty, the character goes to the next row.
      have two : cellWidth c = 2 := by omega
      obtain rfl : left = 1 := by omega
      have reach : advanceTo g.cols (g.row, drawn.length) c = (g.row + 1, cellWidth c) :=
        if_neg (by omega)
      rw [reach] at fits ⊢
      obtain ⟨below, rfl⟩ : ∃ n, below = n + 1 := ⟨below - 1, by omega⟩
      obtain ⟨g₀, half, shows₀, cols₀, rows₀, row₀⟩ := shows_.halved col
      obtain ⟨g₁, above₁, wrapped, shows₁, cols₁, rows₁, single₁, col₁, row₁⟩ := shows₀.wraps
      rw [← cols₁] at shows₁
      obtain ⟨g₂, put, printed₂, cols₂, rows₂⟩ :=
        printed_below shows₁ col₁ single₁ (by omega) wide
      refine ⟨g₂, ?_, ?_, cols₂.trans (cols₁.trans cols₀), rows₂.trans (rows₁.trans rows₀)⟩
      · rw [place, if_pos (show _ ∧ _ from ⟨two, by omega⟩),
          if_pos (show _ ∧ _ from ⟨shows_.autowrap, by omega⟩), half]
        show (g₀.wrap.bind _).bind _ = _
        rw [wrapped]
        exact put
      · rw [row₁, row₀] at printed₂
        exact printed₂

/-- A text that fits is printed. -/
theorem prints {more : List Char} {reached : Nat × Nat} (printed : g.Printed text reached)
    (room : 2 ≤ g.cols) (wide : ∀ c ∈ more, cellWidth c ≠ 0)
    (fits : (more.foldl (advanceTo g.cols) reached).1 < g.rows) :
    ∃ g', (more.map Action.print).foldlM perform g = some g' ∧
      g'.Printed (text ++ more) (more.foldl (advanceTo g.cols) reached) ∧ g'.cols = g.cols ∧
      g'.rows = g.rows := by
  induction more generalizing g text reached with
  | nil => exact ⟨g, rfl, (List.append_nil text).symm ▸ printed, rfl, rfl⟩
  | cons c more ih =>
    rw [List.foldl_cons] at fits ⊢
    have here : (advanceTo g.cols reached c).1 < g.rows :=
      Nat.lt_of_le_of_lt (advanceTo_row g.cols _ more) fits
    obtain ⟨g₁, step, printed₁, cols₁, rows₁⟩ :=
      print_step printed room (wide c List.mem_cons_self) here
    rw [← cols₁] at fits room ⊢
    rw [← rows₁] at fits ⊢
    obtain ⟨g₂, steps, printed₂, cols₂, rows₂⟩ := ih (cols₁ ▸ printed₁) room
      (fun d in_ => wide d (List.mem_cons_of_mem c in_)) fits
    rw [List.append_assoc] at printed₂
    refine ⟨g₂, ?_, printed₂, cols₂, rows₂⟩
    rw [List.map_cons, List.foldlM_cons]
    show (g.print c).bind _ = _
    rw [step]
    exact steps

/-- A blank grid has nothing printed on it. -/
theorem new_printed (rows cols : Nat) : ∃ g, new rows cols = some g ∧ g.Printed [] (0, 0) ∧
    g.cols = clamp cols 1 maxCols ∧ g.rows = clamp rows 1 maxRows := by
  have some_ : 1 ≤ clamp rows 1 maxRows := clamp_pos rows (by decide)
  have width : 1 ≤ clamp cols 1 maxCols := clamp_pos cols (by decide)
  have last : Vec.sub (clamp rows 1 maxRows) 1 = some (clamp rows 1 maxRows - 1) :=
    Vec.sub_eq some_
  have made : ∃ g, new rows cols = some g ∧
      g.cells = List.replicate (clamp rows 1 maxRows) (Row.blank (clamp cols 1 maxCols)) ∧
      (g.row = 0 ∧ g.col = 0 ∧ g.pendingWrap = false ∧ g.autowrap = true) ∧
      g.bottom = clamp rows 1 maxRows - 1 ∧ g.cols = clamp cols 1 maxCols ∧
      g.rows = clamp rows 1 maxRows := by
    rw [new, last]
    exact ⟨_, rfl, rfl, ⟨rfl, rfl, rfl, rfl⟩, rfl, rfl, rfl⟩
  obtain ⟨g, new_, cells, ⟨row, col, single, autowrap⟩, bottom, cols_, rows_⟩ := made
  refine ⟨g, new_, ⟨[], [], List.replicate g.cols false, g.cols, g.rows - 1,
    ⟨?_, row.symm, ?_, ?_, Nat.zero_add _, List.length_replicate, rfl, ?_, autowrap⟩,
    .inr ⟨by omega, single, col⟩, by rw [row, List.length_nil]⟩, cols_, rows_⟩
  · rw [cells, ← rows_, ← cols_]
    show _ = Row.blank g.cols :: List.replicate (g.rows - 1) (Row.blank g.cols)
    rw [← List.replicate_succ, Nat.sub_add_cancel (by omega)]
  · exact fun row none_ => absurd none_ List.not_mem_nil
  · omega
  · rw [bottom, rows_]

/-! ## 4. Read back -/

theorem trimEnd_blanks (text : List Char) (left : Nat) :
    trimEnd (text ++ List.replicate left ' ') = trimEnd text := by
  induction left with
  | zero => rw [List.replicate_zero, List.append_nil]
  | succ left ih =>
    rw [List.replicate_succ', ← List.append_assoc, trimEnd,
      List.rdropWhile_concat_pos _ _ _ (by decide)]
    exact ih

theorem said_blanks (left : Nat) : said (List.replicate left ' ') = List.replicate left ' ' :=
  List.filter_eq_self.2 fun c in_ => by
    rw [List.eq_of_mem_replicate in_]
    decide

theorem linesFrom_wrapped (wrapped : ∀ row ∈ above, row.wrapped = true) (rows : List Row)
    (line : List Char) :
    linesFrom (above ++ rows) line = linesFrom rows (line ++ said (above.flatMap Row.cells)) := by
  induction above generalizing line with
  | nil => rw [List.nil_append, List.flatMap_nil, said, List.filter_nil, List.append_nil]
  | cons row above ih =>
    rw [List.cons_append, linesFrom, if_pos (wrapped row List.mem_cons_self),
      ih (fun r in_ => wrapped r (List.mem_cons_of_mem row in_)), List.flatMap_cons, said_append,
      List.append_assoc]
    rfl

theorem linesFrom_ended (ended : row.wrapped = false) (rows : List Row) (line : List Char) :
    linesFrom (row :: rows) line = trimEnd (line ++ row.text) :: linesFrom rows [] := by
  rw [linesFrom, if_neg (by rw [ended]; exact Bool.false_ne_true)]

theorem linesFrom_blanks (count cols : Nat) :
    linesFrom (List.replicate count (Row.blank cols)) [] = List.replicate count [] := by
  induction count with
  | zero => rfl
  | succ count ih =>
    have blank : (Row.blank cols).text = List.replicate cols ' ' := said_blanks cols
    rw [List.replicate_succ, linesFrom_ended rfl, ih, blank, trimEnd_blanks [] cols]
    rfl

/-- The lines of a grid a text was printed on. -/
theorem Printed.lines {reached : Nat × Nat} (printed : g.Printed text reached) :
    g.lines = trimEnd text :: List.replicate (g.rows - 1 - reached.1) [] := by
  obtain ⟨above, drawn, styled, left, below, shows_, -, rfl⟩ := printed
  have row : (rowOf drawn styled left).text = said drawn ++ List.replicate left ' ' := by
    rw [Row.text, rowOf]
    exact (said_append _ _).trans (congrArg (said drawn ++ ·) (said_blanks left))
  have rows := shows_.rows
  have count : below = g.rows - 1 - g.row := by omega
  rw [Grid.lines, shows_.cells, linesFrom_wrapped shows_.wrapped, linesFrom_ended rfl,
    linesFrom_blanks, row, List.nil_append, ← List.append_assoc,
    ← said_append, trimEnd_blanks, ← shows_.text, count]

end Grid

namespace Screen

theorem run_feeds (s : Screen) (chunks : List (List UInt8)) :
    (chunks.map Input.feed).foldlM take s = s.feed chunks.flatten := by
  induction chunks generalizing s with
  | nil => rfl
  | cons chunk chunks ih =>
    rw [List.map_cons, List.foldlM_cons, List.flatten_cons, feed_append]
    exact congrArg (s.feed chunk).bind (funext ih)

/-- **What is printed is read back**: a text of characters that take one cell or two, and that fits
    a blank screen of two columns or more, is the screen's first line without the blanks at its end,
    wherever its bytes were cut, and every other line is empty. -/
theorem printed_is_read_back (rows cols : UInt16) (room : 2 ≤ cols.toNat) {text : List Char}
    (printable : ∀ c ∈ text, cellWidth c ≠ 0)
    (fits : (layOut (clamp cols.toNat 1 maxCols) text).1 < clamp rows.toNat 1 maxRows)
    {chunks : List (List UInt8)} (whole : chunks.flatten = Utf8.bytes text) :
    ∃ s, run rows cols (chunks.map Input.feed) = some s ∧
      s.grid.lines = trimEnd text :: List.replicate (clamp rows.toNat 1 maxRows - 1 -
        (layOut (clamp cols.toNat 1 maxCols) text).1) [] := by
  obtain ⟨g, blank, printed, width, height⟩ := Grid.new_printed rows.toNat cols.toNat
  have wide : 2 ≤ g.cols := by
    rw [width, clamp]
    unfold maxCols
    omega
  rw [← width, ← height] at fits ⊢
  obtain ⟨g', drawn, printed', _, height'⟩ := Grid.prints printed wide printable fits
  obtain ⟨p, read, -⟩ := Parser.text_read printable (p := .start) ⟨rfl, rfl⟩
  refine ⟨⟨p, g'⟩, ?_, ?_⟩
  · rw [run, new, blank]
    show (chunks.map Input.feed).foldlM take ⟨.start, g⟩ = _
    rw [run_feeds, whole, feed_eq, read]
    show (((text.map Action.print).foldlM Grid.perform g).map _) = _
    rw [drawn]
    rfl
  · rw [printed'.lines, height']
    rfl

/-- A wide character that has one cell left goes whole to the next row, and its bytes come in
    three chunks. -/
theorem printed_is_read_back_wide :
    ∃ s, run 2 4 ([[0x61, 0xE6], [0xBC, 0xA2, 0xE5], [0xAD, 0x97]].map Input.feed) = some s ∧
      s.grid.lines = [['a', '漢', '字']] := by
  have printable : ∀ c ∈ ['a', '漢', '字'], cellWidth c ≠ 0 := by
    intro c in_
    simp only [List.mem_cons, List.not_mem_nil, or_false] at in_
    rcases in_ with rfl | rfl | rfl <;> decide
  have fits : (layOut (clamp (4 : UInt16).toNat 1 maxCols) ['a', '漢', '字']).1 <
      clamp (2 : UInt16).toNat 1 maxRows := by decide
  have whole : [[0x61, 0xE6], [0xBC, 0xA2, 0xE5], [0xAD, 0x97]].flatten =
      Utf8.bytes ['a', '漢', '字'] := by decide
  exact printed_is_read_back 2 4 (by decide) printable fits whole

end Screen
end Panes
end ConsensFlow
