/-
  File:      ConsensFlow/Panes/Grid.lean
  Subject:   THE CELLS OF A PANE'S SCREEN (`cf-panes`, `screen/grid.rs` and `screen/grid/edit.rs`),
             each operation answering none where the code would panic.

  * `Row`, `Grid` -- the cells, the cursor, the scroll region and the screen parked;
  * `print`, `csi`, `resize` and the rest, as the source has them;
  * `Grid.Sound` -- every row in its place and of its width, the cursor and the region inside;
  * **`Grid.perform_kept`, `Grid.resize_kept`** -- whatever a program's sequences and the pty's sizes
    are, no operation panics and the grid stays sound.
-/
import ConsensFlow.Lib.Vec

open Lib

namespace ConsensFlow
namespace Panes

/-! ## 1. Rows -/

def maxRows : Nat := 400
def maxCols : Nat := 1000

/-- Where the tab stops are: every eighth column. -/
def tabStop : Nat := 8

/-- `Ord::clamp`. -/
def clamp (n low high : Nat) : Nat := min (max n low) high

theorem clamp_le (n low high : Nat) : clamp n low high ≤ high := Nat.min_le_right _ _

theorem clamp_pos (n : Nat) {high : Nat} (h : 1 ≤ high) : 1 ≤ clamp n 1 high := by
  unfold clamp
  omega

theorem clamp_self {n low high : Nat} (hl : low ≤ n) (hh : n ≤ high) : clamp n low high = n := by
  unfold clamp
  omega

/-- A cell that is the second half of the wide character before it. -/
def secondHalf : Char := '\x00'

structure Row where
  cells : List Char
  /-- Whether each cell was drawn styled. -/
  styled : List Bool
  /-- The text went on in the row below. -/
  wrapped : Bool
  deriving DecidableEq, Repr

namespace Row

def blank (cols : Nat) : Row where
  cells := List.replicate cols ' '
  styled := List.replicate cols false
  wrapped := false

def blankCells (row : Row) (first last : Nat) : Option Row := do
  let last := min last row.cells.length
  if first < last then
    let cells ← Vec.fill first last ' ' row.cells
    let styled ← Vec.fill first last false row.styled
    some { row with cells := cells, styled := styled }
  else some row

/-- One cell drawn. -/
def draw (row : Row) (col : Nat) (character : Char) (styled : Bool) : Option Row := do
  let cells ← Vec.set col character row.cells
  let styles ← Vec.set col styled row.styled
  some { row with cells := cells, styled := styles }

/-- A cell with no text in it, where a wide character did not fit. -/
def leaveHalf (row : Row) (col : Nat) : Option Row := do
  let cells ← Vec.set col secondHalf row.cells
  some { row with cells := cells }

/-- A row all blank, and no longer gone on from. -/
def clear (cols : Nat) (row : Row) : Option Row := do
  let row ← row.blankCells 0 cols
  some { row with wrapped := false }

/-- One blank at `col`, the rest moving right. -/
def insertBlank (col : Nat) (row : Row) : Option Row := do
  let cells ← Vec.insert col ' ' row.cells
  let styled ← Vec.insert col false row.styled
  some { row with cells := cells.dropLast, styled := styled.dropLast }

/-- `count` cells at `col` gone, the rest moving left. -/
def deleteCells (col count : Nat) (row : Row) : Option Row := do
  let cells ← Vec.drain col (col + count) row.cells
  let styled ← Vec.drain col (col + count) row.styled
  some { row with
    cells := cells ++ List.replicate count ' ', styled := styled ++ List.replicate count false }

end Row

/-! ## 2. The grid -/

/-- Where the cursor was when it was saved. -/
structure Saved where
  row : Nat
  col : Nat
  pendingWrap : Bool
  deriving DecidableEq, Repr

structure Grid where
  rows : Nat
  cols : Nat
  cells : List Row
  /-- The main screen, while the alternate one shows. -/
  parked : Option (List Row)
  row : Nat
  col : Nat
  /-- The cursor is at the end of a full row, and the next character wraps. -/
  pendingWrap : Bool
  saved : Option Saved
  /-- The rows (first and last) that scroll. -/
  top : Nat
  bottom : Nat
  autowrap : Bool
  cursorShown : Bool
  coloured : Bool
  faint : Bool
  /-- The last character printed. -/
  last : Option Char
  deriving DecidableEq, Repr

/-- What a run of bytes said. -/
inductive Action where
  | print (character : Char)
  | control (byte : UInt8)
  | escape (intermediate : Option UInt8) (last : UInt8)
  | csi (marker : Option UInt8) (params : List Nat) (intermediate : Option UInt8) (last : UInt8)
  deriving DecidableEq

/-- How many cells a character takes. -/
def cellWidth (character : Char) : Nat :=
  let c := character.toNat
  let within (ranges : List (Nat × Nat)) := ranges.any fun (first, last) => first ≤ c && c ≤ last
  if within [(0x00, 0x1F), (0x7F, 0x9F)] then 0
  else if within [(0x300, 0x36F), (0x200B, 0x200F), (0x2028, 0x202E), (0x2060, 0x2064),
    (0xFE00, 0xFE0F), (0xFEFF, 0xFEFF)] then 0
  else if within [(0x1100, 0x115F), (0x2E80, 0x303E), (0x3041, 0x33FF), (0x3400, 0x4DBF),
    (0x4E00, 0x9FFF), (0xA000, 0xA4CF), (0xAC00, 0xD7A3), (0xF900, 0xFAFF), (0xFE30, 0xFE6F),
    (0xFF00, 0xFF60), (0xFFE0, 0xFFE6), (0x1F300, 0x1F64F), (0x1F900, 0x1F9FF),
    (0x20000, 0x3FFFD)] then 2
  else 1

/-- What the pen draws in after `CSI m`, the parameters to skip of a colour being counted down. -/
def penAfter : List Nat → Nat → Bool × Bool → Bool × Bool
  | [], _, pen => pen
  | _ :: params, skip + 1, pen => penAfter params skip pen
  | param :: params, 0, (coloured, faint) =>
    let skip := match params.head? with
      | some 5 => 2
      | some 2 => 4
      | _ => 0
    if param = 0 then penAfter params 0 (false, false)
    else if param = 2 then penAfter params 0 (coloured, true)
    else if param = 22 then penAfter params 0 (coloured, false)
    else if (30 ≤ param && param ≤ 37) || (90 ≤ param && param ≤ 97) then
      penAfter params 0 (true, faint)
    else if param = 39 then penAfter params 0 (false, faint)
    else if param = 38 then penAfter params skip (true, faint)
    else if param = 48 then penAfter params skip (coloured, faint)
    else penAfter params 0 (coloured, faint)

namespace Grid

/-- A blank screen, kept to the most the model keeps. -/
def new (rows cols : Nat) : Option Grid := do
  let rows := clamp rows 1 maxRows
  let cols := clamp cols 1 maxCols
  let bottom ← Vec.sub rows 1
  some {
    rows := rows, cols := cols, cells := List.replicate rows (Row.blank cols), parked := none
    row := 0, col := 0, pendingWrap := false, saved := none, top := 0, bottom := bottom
    autowrap := true, cursorShown := true, coloured := false, faint := false, last := none }

/-- What is done to the cursor's row. -/
def onRow (g : Grid) (step : Row → Option Row) : Option Grid := do
  let row ← g.cells[g.row]?
  let row ← step row
  let cells ← Vec.set g.row row g.cells
  some { g with cells := cells }

/-- A row taken out at `out`, and a blank one put in at `at_`. -/
def shift (g : Grid) (out at_ : Nat) : Option Grid := do
  let cells ← Vec.remove out g.cells
  let cells ← Vec.insert at_ (Row.blank g.cols) cells
  some { g with cells := cells }

/-! ### The cursor -/

def moveTo (g : Grid) (row col : Nat) : Option Grid := do
  let lastRow ← Vec.sub g.rows 1
  let lastCol ← Vec.sub g.cols 1
  some { g with row := min row lastRow, col := min col lastCol, pendingWrap := false }

/-- The top row a cursor moving up stops at: the region's, from inside it. -/
def upLimit (g : Grid) : Nat := if g.row ≥ g.top then g.top else 0

def downLimit (g : Grid) : Option Nat :=
  if g.row ≤ g.bottom then some g.bottom else Vec.sub g.rows 1

def tab (g : Grid) (count : Nat) : Option Grid :=
  g.moveTo g.row (Nat.repeat (fun col => (col / tabStop + 1) * tabStop) (min count g.cols) g.col)

def backTab (g : Grid) (count : Nat) : Option Grid :=
  g.moveTo g.row (Nat.repeat (fun col => (col - 1) / tabStop * tabStop) (min count g.cols) g.col)

def saveCursor (g : Grid) : Grid := { g with saved := some ⟨g.row, g.col, g.pendingWrap⟩ }

def restoreCursor (g : Grid) : Option Grid := do
  let saved := g.saved.getD ⟨0, 0, false⟩
  let g ← g.moveTo saved.row saved.col
  some { g with pendingWrap := saved.pendingWrap }

def setRegion (g : Grid) (params : List Nat) : Option Grid := do
  let top ← Vec.sub ((params[0]?.filter (0 < ·)).getD 1) 1
  let bottom ← Vec.sub (min ((params[1]?.filter (0 < ·)).getD g.rows) g.rows) 1
  let g := if top < bottom then { g with top := top, bottom := bottom } else g
  g.moveTo 0 0

/-! ### Lines -/

def scrollUp (g : Grid) (lines : Nat) : Option Grid := do
  let span ← Vec.sub g.bottom g.top
  Vec.times (fun g => g.shift g.top g.bottom) (min lines (span + 1)) g

def scrollDown (g : Grid) (lines : Nat) : Option Grid := do
  let span ← Vec.sub g.bottom g.top
  Vec.times (fun g => g.shift g.bottom g.top) (min lines (span + 1)) g

def lineFeed (g : Grid) : Option Grid :=
  let g := { g with pendingWrap := false }
  if g.row = g.bottom then g.scrollUp 1
  else if g.row + 1 < g.rows then some { g with row := g.row + 1 }
  else some g

def reverseIndex (g : Grid) : Option Grid :=
  let g := { g with pendingWrap := false }
  if g.row = g.top then g.scrollDown 1 else some { g with row := g.row - 1 }

/-- `CSI L`: blank lines at the cursor, within the scroll region. -/
def insertLines (g : Grid) (lines : Nat) : Option Grid :=
  if g.top ≤ g.row ∧ g.row ≤ g.bottom then do
    let span ← Vec.sub g.bottom g.row
    let g ← Vec.times (fun g => g.shift g.bottom g.row) (min lines (span + 1)) g
    g.moveTo g.row 0
  else some g

/-- `CSI M`: lines at the cursor gone, within the scroll region. -/
def deleteLines (g : Grid) (lines : Nat) : Option Grid :=
  if g.top ≤ g.row ∧ g.row ≤ g.bottom then do
    let span ← Vec.sub g.bottom g.row
    let g ← Vec.times (fun g => g.shift g.row g.bottom) (min lines (span + 1)) g
    g.moveTo g.row 0
  else some g

/-! ### Characters -/

/-- `CSI @`: blanks at the cursor. -/
def insertChars (g : Grid) (count : Nat) : Option Grid := do
  let room ← Vec.sub g.cols g.col
  g.onRow (Vec.times (Row.insertBlank g.col) (min count room))

/-- `CSI P`: characters at the cursor gone. -/
def deleteChars (g : Grid) (count : Nat) : Option Grid := do
  let room ← Vec.sub g.cols g.col
  g.onRow (Row.deleteCells g.col (min count room))

/-- `CSI X`: characters at the cursor blanked. -/
def eraseChars (g : Grid) (count : Nat) : Option Grid :=
  g.onRow fun row => row.blankCells g.col (g.col + count)

/-- `CSI K`: the row from the cursor (0), to it (1), or all of it (2). -/
def eraseLine (g : Grid) (mode : Nat) : Option Grid :=
  match mode with
  | 0 => g.onRow fun row => (row.blankCells g.col g.cols).map fun row => { row with wrapped := false }
  | 1 => g.onRow fun row => row.blankCells 0 (g.col + 1)
  | 2 => g.onRow (Row.clear g.cols)
  | _ => some g

/-- The rows `first..last` all blank. -/
def clearRows (g : Grid) (first last : Nat) : Option Grid := do
  if first ≤ last ∧ last ≤ g.cells.length then
    let cleared ← Vec.each (Row.clear g.cols) ((g.cells.take last).drop first)
    some { g with cells := g.cells.take first ++ (cleared ++ g.cells.drop last) }
  else none

/-- `CSI J`: the screen from the cursor (0), to it (1), or all of it (2). -/
def eraseDisplay (g : Grid) (mode : Nat) : Option Grid :=
  match mode with
  | 0 => do
    let g ← g.eraseLine 0
    g.clearRows (g.row + 1) g.cells.length
  | 1 => do
    let g ← g.clearRows 0 g.row
    g.eraseLine 1
  | 2 => g.clearRows 0 g.cells.length
  | _ => some g

/-! ### Text -/

/-- The text filled the row: it goes on in the one below. -/
def wrap (g : Grid) : Option Grid := do
  let g ← g.onRow fun row => some { row with wrapped := true }
  let g ← g.lineFeed
  some { g with col := 0, pendingWrap := false }

/-- Where a character of `width` cells goes, and how wide it is drawn: one that does not fit at the
    end of a row goes to the next whole, and leaves a cell with no text in it behind. -/
def place (g : Grid) (width : Nat) : Option (Grid × Nat) :=
  if width = 2 ∧ g.col + 2 > g.cols then
    if g.autowrap ∧ g.cols > 1 then do
      let g ← g.onRow fun row => row.leaveHalf g.col
      let g ← g.wrap
      some (g, width)
    else some (g, 1)
  else some (g, width)

/-- A character put at the cursor, `width` cells wide. -/
def put (g : Grid) (character : Char) (width : Nat) : Option Grid := do
  let styled := g.coloured || g.faint
  let g ← g.onRow fun row => do
    let row ← row.draw g.col character styled
    if width = 2 then row.draw (g.col + 1) secondHalf styled else some row
  let g := { g with last := some character }
  if g.col + width ≥ g.cols then
    let lastCol ← Vec.sub g.cols 1
    some { g with col := lastCol, pendingWrap := true }
  else some { g with col := g.col + width }

/-- The cursor leaves the end of a full row, for the character that comes. -/
def wrapPending (g : Grid) : Option Grid := if g.pendingWrap ∧ g.autowrap then g.wrap else some g

def print (g : Grid) (character : Char) : Option Grid :=
  let width := cellWidth character
  if width = 0 then some g
  else do
    let g ← g.wrapPending
    let (g, width) ← place { g with pendingWrap := false } width
    g.put character width

def repeat_ (g : Grid) (count : Nat) : Option Grid :=
  match g.last with
  | some character => Vec.times (fun g => g.print character) (min count (g.rows * g.cols)) g
  | none => some g

/-! ### Screens and modes -/

/-- The alternate screen shows, blank, with the main one parked; or the main one comes back. -/
def alternate (g : Grid) (on : Bool) : Grid :=
  match on, g.parked with
  | true, none =>
    { g with parked := some g.cells, cells := List.replicate g.rows (Row.blank g.cols) }
  | false, some main => { g with parked := none, cells := main }
  | _, _ => g

def setMode (g : Grid) (on : Bool) (mode : Nat) : Option Grid :=
  if mode = 7 then some { g with autowrap := on }
  else if mode = 25 then some { g with cursorShown := on }
  else if mode = 47 ∨ mode = 1047 then some (g.alternate on)
  else if mode = 1049 then
    if on then some (g.saveCursor.alternate on) else (g.alternate on).restoreCursor
  else some g

def setModes (g : Grid) (params : List Nat) (on : Bool) : Option Grid :=
  params.foldlM (fun g mode => g.setMode on mode) g

/-- `CSI m`. -/
def pen (g : Grid) (params : List Nat) : Grid :=
  let pen := if params.isEmpty then (false, false) else penAfter params 0 (g.coloured, g.faint)
  { g with coloured := pen.1, faint := pen.2 }

/-! ### Sequences -/

def control (g : Grid) (byte : UInt8) : Option Grid :=
  match byte.toNat with
  | 0x08 => g.moveTo g.row (g.col - 1)
  | 0x09 => g.tab 1
  | 0x0A | 0x0B | 0x0C => g.lineFeed
  | 0x0D => g.moveTo g.row 0
  | _ => some g

def escape (g : Grid) (last : UInt8) : Option Grid :=
  match Char.ofNat last.toNat with
  | '7' => some g.saveCursor
  | '8' => g.restoreCursor
  | 'D' => g.lineFeed
  | 'E' => do
    let g ← g.moveTo g.row 0
    g.lineFeed
  | 'M' => g.reverseIndex
  | 'c' => new g.rows g.cols
  | _ => some g

/-- A count, which a missing or zero parameter makes 1. -/
def count (params : List Nat) (at_ : Nat) : Nat := (params[at_]?.filter (0 < ·)).getD 1

def moveDown (g : Grid) (count col : Nat) : Option Grid := do
  let limit ← g.downLimit
  g.moveTo (min (g.row + count) limit) col

def moveUp (g : Grid) (count col : Nat) : Option Grid := g.moveTo (max (g.row - count) g.upLimit) col

def moveAt (g : Grid) (row col : Nat) : Option Grid := do
  let row ← Vec.sub row 1
  let col ← Vec.sub col 1
  g.moveTo row col

def csi (g : Grid) (marker : Option UInt8) (params : List Nat) (last : UInt8) : Option Grid :=
  let first := params.head?.getD 0
  match marker with
  | some marker =>
    if Char.ofNat marker.toNat = '?' then
      match Char.ofNat last.toNat with
      | 'h' => g.setModes params true
      | 'l' => g.setModes params false
      | _ => some g
    else some g
  | none =>
    match Char.ofNat last.toNat with
    | 'A' => g.moveUp (count params 0) g.col
    | 'B' | 'e' => g.moveDown (count params 0) g.col
    | 'C' | 'a' => g.moveTo g.row (g.col + count params 0)
    | 'D' => g.moveTo g.row (g.col - count params 0)
    | 'E' => g.moveDown (count params 0) 0
    | 'F' => g.moveUp (count params 0) 0
    | 'G' | '`' => (Vec.sub (count params 0) 1).bind fun col => g.moveTo g.row col
    | 'd' => (Vec.sub (count params 0) 1).bind fun row => g.moveTo row g.col
    | 'H' | 'f' => g.moveAt (count params 0) (count params 1)
    | 'I' => g.tab (count params 0)
    | 'Z' => g.backTab (count params 0)
    | 'J' => g.eraseDisplay first
    | 'K' => g.eraseLine first
    | 'L' => g.insertLines (count params 0)
    | 'M' => g.deleteLines (count params 0)
    | '@' => g.insertChars (count params 0)
    | 'P' => g.deleteChars (count params 0)
    | 'X' => g.eraseChars (count params 0)
    | 'S' => g.scrollUp (count params 0)
    | 'T' => g.scrollDown (count params 0)
    | 'b' => g.repeat_ (count params 0)
    | 'r' => g.setRegion params
    | 's' => if params.isEmpty then some g.saveCursor else some g
    | 'u' => g.restoreCursor
    | 'm' => some (g.pen params)
    | _ => some g

/-- What the program's bytes said, done to the screen. -/
def perform (g : Grid) : Action → Option Grid
  | .print character => g.print character
  | .control byte => g.control byte
  | .escape none last => g.escape last
  | .escape _ _ => some g
  | .csi marker params none last => g.csi marker params last
  | .csi _ _ _ _ => some g

/-- A screen at another size. -/
def resized (rows cols : Nat) (screen : List Row) : List Row :=
  (Vec.resize rows (Row.blank cols) screen).map fun row =>
    { row with
      cells := Vec.resize cols ' ' row.cells, styled := Vec.resize cols false row.styled }

/-- The pty took another size: a cursor below the new last row takes the top rows with it. -/
def resize (g : Grid) (rows cols : Nat) : Option Grid := do
  let rows := clamp rows 1 maxRows
  let cols := clamp cols 1 maxCols
  let dropped := g.row + 1 - rows
  let cells ← Vec.drain 0 (min dropped g.cells.length) g.cells
  let row ← Vec.sub g.row (min dropped g.row)
  let lastRow ← Vec.sub rows 1
  let lastCol ← Vec.sub cols 1
  some { g with
    cells := resized rows cols cells, parked := g.parked.map (resized rows cols)
    rows := rows, cols := cols, top := 0, bottom := lastRow
    row := min row lastRow, col := min g.col lastCol }

end Grid

/-! ## 3. What the grid keeps -/

open Lib.Vec

/-- A row of `cols` cells and as many styles. -/
structure Row.Wide (cols : Nat) (row : Row) : Prop where
  cells : Sized cols (fun _ => True) row.cells
  styled : Sized cols (fun _ => True) row.styled

/-- A screen of `rows` rows of `cols` cells. -/
abbrev Shaped (rows cols : Nat) : List Row → Prop := Sized rows (Row.Wide cols)

/-- **What every operation keeps**: exactly `rows` rows of exactly `cols` cells and styles, on the
    screen shown and the one parked; the cursor on the screen; the region's rows in order, on it. -/
structure Grid.Sound (g : Grid) : Prop where
  cells : Shaped g.rows g.cols g.cells
  parked : ∀ screen, g.parked = some screen → Shaped g.rows g.cols screen
  row : g.row < g.rows
  col : g.col < g.cols
  top : g.top ≤ g.bottom
  bottom : g.bottom < g.rows

namespace Row

variable {cols first last col n : Nat} {row : Row} {character : Char} {styled : Bool}

/-- An operation of a row that keeps its width, without a panic. -/
def Keeps (cols : Nat) (answer : Option Row) : Prop := ∃ row, answer = some row ∧ row.Wide cols

theorem blank_wide (cols : Nat) : (blank cols).Wide cols :=
  ⟨.replicate cols trivial, .replicate cols trivial⟩

theorem blankCells_keeps (h : row.Wide cols) (first last : Nat) :
    Keeps cols (row.blankCells first last) := by
  unfold blankCells
  rw [h.cells.length]
  dsimp only
  split
  · rename_i range
    obtain ⟨cells, hc, wide⟩ := h.cells.fill (x := ' ') (Nat.le_of_lt range) (Nat.min_le_right _ _) trivial
    obtain ⟨styles, hs, wide'⟩ :=
      h.styled.fill (x := false) (Nat.le_of_lt range) (Nat.min_le_right _ _) trivial
    exact ⟨_, by rw [hc, hs]; rfl, wide, wide'⟩
  · exact ⟨row, rfl, h⟩

theorem draw_keeps (h : row.Wide cols) (inside : col < cols) :
    Keeps cols (row.draw col character styled) := by
  obtain ⟨cells, hc, wide⟩ := h.cells.set (x := character) inside trivial
  obtain ⟨styles, hs, wide'⟩ := h.styled.set (x := styled) inside trivial
  exact ⟨_, by rw [draw, hc, hs]; rfl, wide, wide'⟩

theorem leaveHalf_keeps (h : row.Wide cols) (inside : col < cols) :
    Keeps cols (row.leaveHalf col) := by
  obtain ⟨cells, hc, wide⟩ := h.cells.set (x := secondHalf) inside trivial
  exact ⟨{ row with cells := cells }, by rw [leaveHalf, hc]; rfl, wide, h.styled⟩

theorem clear_keeps (h : row.Wide cols) : Keeps cols (row.clear cols) := by
  obtain ⟨row', hr, wide⟩ := blankCells_keeps h 0 cols
  exact ⟨{ row' with wrapped := false }, by rw [clear, hr]; rfl, wide.cells, wide.styled⟩

theorem dropLast_sized {α : Type} {v : List α} (h : Sized (n + 1) (fun _ => True) v) :
    Sized n (fun _ => True) v.dropLast :=
  ⟨by rw [List.length_dropLast, h.length]; rfl, fun _ _ => trivial⟩

theorem insertBlank_keeps (h : row.Wide cols) (inside : col < cols) :
    Keeps cols (row.insertBlank col) := by
  obtain ⟨cells, hc, wide⟩ := h.cells.insert (x := ' ') (Nat.le_of_lt inside) trivial
  obtain ⟨styles, hs, wide'⟩ := h.styled.insert (x := false) (Nat.le_of_lt inside) trivial
  exact ⟨_, by rw [insertBlank, hc, hs]; rfl, dropLast_sized wide, dropLast_sized wide'⟩

theorem append_sized {α : Type} {v : List α} {x : α} (h : Sized (cols - n) (fun _ => True) v)
    (range : n ≤ cols) : Sized cols (fun _ => True) (v ++ List.replicate n x) := by
  refine ⟨?_, fun _ _ => trivial⟩
  rw [List.length_append, List.length_replicate, h.length]
  omega

theorem deleteCells_keeps (h : row.Wide cols) (range : col + n ≤ cols) :
    Keeps cols (row.deleteCells col n) := by
  obtain ⟨cells, hc, wide⟩ := h.cells.drain (i := col) (Nat.le_add_right _ n) range
  obtain ⟨styles, hs, wide'⟩ := h.styled.drain (i := col) (Nat.le_add_right _ n) range
  rw [Nat.add_sub_cancel_left] at wide wide'
  exact ⟨_, by rw [deleteCells, hc, hs]; rfl, append_sized wide (by omega),
    append_sized wide' (by omega)⟩

end Row

namespace Grid

variable {g : Grid} {cells : List Row}

/-- An operation that only redraws rows, without a panic. -/
def Redraws (g : Grid) (answer : Option Grid) : Prop :=
  ∃ cells, answer = some { g with cells := cells } ∧ Shaped g.rows g.cols cells

/-- **An operation that keeps the grid sound and its size, without a panic.** -/
def Keeps (g : Grid) (answer : Option Grid) : Prop :=
  ∃ g', answer = some g' ∧ g'.Sound ∧ g'.rows = g.rows ∧ g'.cols = g.cols

theorem Sound.redrawn (h : g.Sound) (shaped : Shaped g.rows g.cols cells) :
    ({ g with cells := cells } : Grid).Sound := ⟨shaped, h.parked, h.row, h.col, h.top, h.bottom⟩

theorem Redraws.keeps {answer : Option Grid} (h : g.Sound) (redraws : g.Redraws answer) :
    g.Keeps answer := by
  obtain ⟨cells, rfl, shaped⟩ := redraws
  exact ⟨_, rfl, h.redrawn shaped, rfl, rfl⟩

/-- A grid that stays as it is. -/
theorem Sound.keeps (h : g.Sound) : g.Keeps (some g) := ⟨g, rfl, h, rfl, rfl⟩

theorem Keeps.bind {answer : Option Grid} {next : Grid → Option Grid} (h : g.Keeps answer)
    (keeps : ∀ g' : Grid, g'.Sound → g'.Keeps (next g')) : g.Keeps (answer.bind next) := by
  obtain ⟨g', rfl, sound, rows, cols⟩ := h
  obtain ⟨g'', he, sound', rows', cols'⟩ := keeps g' sound
  exact ⟨g'', he, sound', rows'.trans rows, cols'.trans cols⟩

theorem onRow_redraws (h : g.Sound) {step : Row → Option Row}
    (keeps : ∀ row, row.Wide g.cols → Row.Keeps g.cols (step row)) : g.Redraws (g.onRow step) := by
  obtain ⟨row, hr, wide⟩ := h.cells.get h.row
  obtain ⟨row', hs, wide'⟩ := keeps row wide
  obtain ⟨cells, hc, shaped⟩ := h.cells.set h.row wide'
  exact ⟨cells, by rw [onRow, hr]; simp [hs, hc], shaped⟩

theorem shift_redraws (h : g.Sound) {out at_ : Nat} (ho : out < g.rows) (ha : at_ < g.rows) :
    g.Redraws (g.shift out at_) := by
  obtain ⟨rows, hrows⟩ : ∃ rows, g.rows = rows + 1 := ⟨g.rows - 1, by omega⟩
  have shaped := h.cells
  unfold Shaped at shaped
  rw [hrows] at shaped
  obtain ⟨cells, hc, shaped⟩ := shaped.remove (i := out) (by omega)
  obtain ⟨cells', hi, shaped⟩ := shaped.insert (i := at_) (by omega) (Row.blank_wide g.cols)
  exact ⟨cells', by rw [shift, hc]; simp [hi], by rw [hrows]; exact shaped⟩

/-- Lines taken out in one place and put in blank at another, however many. -/
theorem shifts_redraws (h : g.Sound) {out at_ : Grid → Nat}
    (ho : ∀ cells, out { g with cells := cells } < g.rows)
    (ha : ∀ cells, at_ { g with cells := cells } < g.rows) (n : Nat) :
    g.Redraws (Vec.times (fun g => g.shift (out g) (at_ g)) n g) := by
  have step : ∀ g' : Grid, (∃ cells, g' = { g with cells := cells } ∧ Shaped g.rows g.cols cells) →
      ∃ g'', g'.shift (out g') (at_ g') = some g'' ∧
        ∃ cells, g'' = { g with cells := cells } ∧ Shaped g.rows g.cols cells := by
    rintro _ ⟨cells, rfl, shaped⟩
    obtain ⟨cells', hs, shaped'⟩ := shift_redraws (h.redrawn shaped) (ho cells) (ha cells)
    exact ⟨_, hs, cells', rfl, shaped'⟩
  obtain ⟨_, hn, cells, rfl, shaped⟩ := times_keeps step n ⟨g.cells, rfl, h.cells⟩
  exact ⟨cells, hn, shaped⟩

/-! ### The cursor -/

theorem moveTo_eq (h : g.Sound) (row col : Nat) : g.moveTo row col =
    some { g with row := min row (g.rows - 1), col := min col (g.cols - 1), pendingWrap := false } := by
  have rows := h.row
  have cols := h.col
  rw [moveTo, sub_eq (by omega), sub_eq (by omega)]
  rfl

theorem moveTo_keeps (h : g.Sound) (row col : Nat) : g.Keeps (g.moveTo row col) := by
  have rows := h.row
  have cols := h.col
  refine ⟨_, moveTo_eq h row col, ⟨h.cells, h.parked, ?_, ?_, h.top, h.bottom⟩, rfl, rfl⟩
  · show min row (g.rows - 1) < g.rows
    omega
  · show min col (g.cols - 1) < g.cols
    omega

theorem Sound.withWrap (h : g.Sound) (pending : Bool) :
    ({ g with pendingWrap := pending } : Grid).Sound :=
  ⟨h.cells, h.parked, h.row, h.col, h.top, h.bottom⟩

theorem restoreCursor_keeps (h : g.Sound) : g.Keeps g.restoreCursor :=
  (moveTo_keeps h _ _).bind fun _ sound =>
    ⟨_, rfl, sound.withWrap _, rfl, rfl⟩

theorem setRegion_keeps (h : g.Sound) (params : List Nat) : g.Keeps (g.setRegion params) := by
  have rows := h.row
  have first : 0 < (params[0]?.filter (0 < ·)).getD 1 := by
    cases hp : params[0]?.filter (0 < ·) with
    | none => simp
    | some v => simpa using (Option.filter_eq_some_iff.mp hp).2
  have second : 0 < (params[1]?.filter (0 < ·)).getD g.rows := by
    cases hp : params[1]?.filter (0 < ·) with
    | none => simpa using by omega
    | some v => simpa using (Option.filter_eq_some_iff.mp hp).2
  rw [setRegion, sub_eq first, sub_eq (by omega)]
  show g.Keeps (Grid.moveTo (ite _ _ _) 0 0)
  split
  · rename_i inside
    obtain ⟨g', hg, sound, rows', cols'⟩ := moveTo_keeps (g := { g with
      top := (params[0]?.filter (0 < ·)).getD 1 - 1
      bottom := min ((params[1]?.filter (0 < ·)).getD g.rows) g.rows - 1 })
      ⟨h.cells, h.parked, h.row, h.col, by simpa using Nat.le_of_lt inside, by
        show min _ g.rows - 1 < g.rows
        omega⟩ 0 0
    exact ⟨g', hg, sound, rows', cols'⟩
  · exact moveTo_keeps h 0 0

theorem moveDown_keeps (h : g.Sound) (n col : Nat) : g.Keeps (g.moveDown n col) := by
  have rows := h.row
  have limit : ∃ limit, g.downLimit = some limit := by
    unfold downLimit
    split
    · exact ⟨_, rfl⟩
    · exact ⟨_, sub_eq (by omega)⟩
  obtain ⟨limit, hl⟩ := limit
  rw [moveDown, hl]
  exact moveTo_keeps h _ _

theorem moveAt_keeps (h : g.Sound) {row col : Nat} (hr : 0 < row) (hc : 0 < col) :
    g.Keeps (g.moveAt row col) := by
  rw [moveAt, sub_eq hr, sub_eq hc]
  exact moveTo_keeps h _ _

theorem count_pos (params : List Nat) (at_ : Nat) : 0 < count params at_ := by
  unfold count
  cases hp : params[at_]?.filter (0 < ·) with
  | none => simp
  | some v => simpa using (Option.filter_eq_some_iff.mp hp).2

/-! ### Lines -/

theorem scrollUp_redraws (h : g.Sound) (lines : Nat) : g.Redraws (g.scrollUp lines) := by
  rw [scrollUp, sub_eq h.top]
  exact shifts_redraws h (fun _ => Nat.lt_of_le_of_lt h.top h.bottom) (fun _ => h.bottom) _

theorem scrollDown_redraws (h : g.Sound) (lines : Nat) : g.Redraws (g.scrollDown lines) := by
  rw [scrollDown, sub_eq h.top]
  exact shifts_redraws h (fun _ => h.bottom) (fun _ => Nat.lt_of_le_of_lt h.top h.bottom) _

theorem lineFeed_keeps (h : g.Sound) : g.Keeps g.lineFeed := by
  unfold lineFeed
  dsimp only
  split
  · exact ((scrollUp_redraws (h.withWrap false) 1).keeps (h.withWrap false) : Keeps _ _)
  · split
    · rename_i inside
      exact ⟨_, rfl, ⟨h.cells, h.parked, inside, h.col, h.top, h.bottom⟩, rfl, rfl⟩
    · exact ⟨_, rfl, h.withWrap false, rfl, rfl⟩

theorem reverseIndex_keeps (h : g.Sound) : g.Keeps g.reverseIndex := by
  unfold reverseIndex
  dsimp only
  split
  · exact ((scrollDown_redraws (h.withWrap false) 1).keeps (h.withWrap false) : Keeps _ _)
  · refine ⟨_, rfl, ⟨h.cells, h.parked, ?_, h.col, h.top, h.bottom⟩, rfl, rfl⟩
    have row := h.row
    show g.row - 1 < g.rows
    omega

theorem insertLines_keeps (h : g.Sound) (lines : Nat) : g.Keeps (g.insertLines lines) := by
  unfold insertLines
  split
  · rename_i inside
    rw [sub_eq inside.2]
    refine (Redraws.keeps h ?_).bind fun g' sound => moveTo_keeps sound _ _
    exact shifts_redraws h (fun _ => h.bottom) (fun _ => h.row) _
  · exact h.keeps

theorem deleteLines_keeps (h : g.Sound) (lines : Nat) : g.Keeps (g.deleteLines lines) := by
  unfold deleteLines
  split
  · rename_i inside
    rw [sub_eq inside.2]
    refine (Redraws.keeps h ?_).bind fun g' sound => moveTo_keeps sound _ _
    exact shifts_redraws h (fun _ => h.row) (fun _ => h.bottom) _
  · exact h.keeps

/-! ### Characters -/

theorem insertChars_redraws (h : g.Sound) (n : Nat) : g.Redraws (g.insertChars n) := by
  rw [insertChars, sub_eq (Nat.le_of_lt h.col)]
  exact onRow_redraws h fun row wide => times_keeps (P := Row.Wide g.cols)
    (fun row wide => Row.insertBlank_keeps wide h.col) _ wide

theorem deleteChars_redraws (h : g.Sound) (n : Nat) : g.Redraws (g.deleteChars n) := by
  have col := h.col
  rw [deleteChars, sub_eq (by omega)]
  exact onRow_redraws h fun row wide => Row.deleteCells_keeps wide (by omega)

theorem eraseChars_redraws (h : g.Sound) (n : Nat) : g.Redraws (g.eraseChars n) :=
  onRow_redraws h fun _ wide => Row.blankCells_keeps wide _ _

theorem eraseLine_keeps (h : g.Sound) (mode : Nat) : g.Keeps (g.eraseLine mode) := by
  unfold eraseLine
  split
  · refine (onRow_redraws h fun row wide => ?_).keeps h
    obtain ⟨row', hr, wide'⟩ := Row.blankCells_keeps wide g.col g.cols
    exact ⟨{ row' with wrapped := false }, by rw [hr]; rfl, wide'.cells, wide'.styled⟩
  · exact (onRow_redraws h fun row wide => Row.blankCells_keeps wide _ _).keeps h
  · exact (onRow_redraws h fun row wide => Row.clear_keeps wide).keeps h
  · exact h.keeps

theorem clearRows_redraws (h : g.Sound) {first last : Nat} (hf : first ≤ last)
    (hl : last ≤ g.rows) : g.Redraws (g.clearRows first last) := by
  have part : Shaped (last - first) g.cols ((g.cells.take last).drop first) := by
    refine ⟨?_, fun row there => h.cells.all row (List.mem_of_mem_take (List.mem_of_mem_drop there))⟩
    rw [List.length_drop, List.length_take, h.cells.length]
    omega
  obtain ⟨cleared, hc, shaped⟩ := part.each fun row wide => Row.clear_keeps wide
  refine ⟨g.cells.take first ++ (cleared ++ g.cells.drop last), ?_, ?_, fun row there => ?_⟩
  · rw [clearRows, if_pos ⟨hf, by rw [h.cells.length]; exact hl⟩, hc]
    rfl
  · simp only [List.length_append, List.length_take, List.length_drop, shaped.length,
      h.cells.length]
    omega
  · rcases List.mem_append.mp there with there | there
    · exact h.cells.all row (List.mem_of_mem_take there)
    · rcases List.mem_append.mp there with there | there
      · exact shaped.all row there
      · exact h.cells.all row (List.mem_of_mem_drop there)

theorem eraseDisplay_keeps (h : g.Sound) (mode : Nat) : g.Keeps (g.eraseDisplay mode) := by
  unfold eraseDisplay
  split
  · refine (eraseLine_keeps h 0).bind fun g' sound => ?_
    exact (clearRows_redraws sound (by rw [sound.cells.length]; exact sound.row)
      (Nat.le_of_eq sound.cells.length)).keeps sound
  · refine ((clearRows_redraws h (Nat.zero_le _) (Nat.le_of_lt h.row)).keeps h).bind ?_
    exact fun g' sound => eraseLine_keeps sound 1
  · exact (clearRows_redraws h (Nat.zero_le _) (Nat.le_of_eq h.cells.length)).keeps h
  · exact h.keeps

/-! ### Text -/

/-- A wrap keeps the grid, and leaves the cursor at the start of a row. -/
theorem wrap_keeps (h : g.Sound) :
    ∃ g', g.wrap = some g' ∧ g'.Sound ∧ g'.rows = g.rows ∧ g'.cols = g.cols ∧ g'.col = 0 := by
  have marked : g.Redraws (g.onRow fun row => some { row with wrapped := true }) :=
    onRow_redraws h fun row wide => ⟨_, rfl, wide.cells, wide.styled⟩
  obtain ⟨g', hg, sound, rows, cols⟩ :=
    (marked.keeps h).bind fun g' sound => lineFeed_keeps sound
  refine ⟨{ g' with col := 0, pendingWrap := false }, ?_, ?_, rows, cols, rfl⟩
  · change (g.onRow _).bind (fun g => g.lineFeed.bind _) = _
    rw [← Option.bind_assoc, hg]
    rfl
  · have col := sound.col
    exact ⟨sound.cells, sound.parked, sound.row, by show 0 < g'.cols; omega, sound.top,
      sound.bottom⟩

/-- A character that is placed has room for all its cells. -/
theorem place_keeps (h : g.Sound) (width : Nat) :
    ∃ g' width', g.place width = some (g', width') ∧ g'.Sound ∧ g'.rows = g.rows ∧
      g'.cols = g.cols ∧ (width' = 2 → g'.col + 1 < g'.cols) := by
  have col := h.col
  unfold place
  split
  · split
    · rename_i room
      have half : g.Redraws (g.onRow fun row => row.leaveHalf g.col) :=
        onRow_redraws h fun row wide => Row.leaveHalf_keeps wide h.col
      obtain ⟨g₁, h₁, sound₁, rows₁, cols₁⟩ := half.keeps h
      obtain ⟨g₂, h₂, sound₂, rows₂, cols₂, col₂⟩ := wrap_keeps sound₁
      refine ⟨g₂, width, by rw [h₁, Option.bind_eq_bind, Option.bind_some, h₂]; rfl, sound₂, rows₂.trans rows₁, cols₂.trans cols₁,
        fun _ => ?_⟩
      omega
    · exact ⟨g, 1, rfl, h, rfl, rfl, fun impossible => by cases impossible⟩
  · rename_i fits
    exact ⟨g, width, rfl, h, rfl, rfl, fun isTwo => by omega⟩

theorem put_keeps (h : g.Sound) (character : Char) {width : Nat}
    (room : width = 2 → g.col + 1 < g.cols) : g.Keeps (g.put character width) := by
  have drawn : g.Redraws (g.onRow fun row => do
      let row ← row.draw g.col character (g.coloured || g.faint)
      if width = 2 then row.draw (g.col + 1) secondHalf (g.coloured || g.faint) else some row) := by
    refine onRow_redraws h fun row wide => ?_
    obtain ⟨row', hr, wide'⟩ := Row.draw_keeps wide h.col
    rw [hr]
    by_cases isTwo : width = 2
    · simpa [isTwo] using Row.draw_keeps wide' (room isTwo)
    · exact ⟨row', by simp [isTwo], wide'⟩
  obtain ⟨cells, hc, shaped⟩ := drawn
  have col := h.col
  unfold put
  dsimp only
  rw [hc]
  show g.Keeps (ite _ _ _)
  split
  · rw [sub_eq (by show 1 ≤ g.cols; omega)]
    exact ⟨_, rfl, ⟨shaped, h.parked, h.row, by show g.cols - 1 < g.cols; omega, h.top, h.bottom⟩,
      rfl, rfl⟩
  · rename_i inside
    exact ⟨_, rfl, ⟨shaped, h.parked, h.row, by simpa using inside, h.top, h.bottom⟩, rfl, rfl⟩

theorem print_keeps (h : g.Sound) (character : Char) : g.Keeps (g.print character) := by
  unfold print
  dsimp only
  split
  · exact h.keeps
  · have wrapped : g.Keeps g.wrapPending := by
      unfold wrapPending
      split
      · obtain ⟨g', hg, sound, rows, cols, -⟩ := wrap_keeps h
        exact ⟨g', hg, sound, rows, cols⟩
      · exact h.keeps
    refine wrapped.bind fun g' sound => ?_
    obtain ⟨g'', width, hp, sound', rows, cols, room⟩ :=
      place_keeps (sound.withWrap false) (cellWidth character)
    obtain ⟨last, hl, sound'', rows', cols'⟩ := put_keeps sound' character room
    exact ⟨last, by rw [hp]; exact hl, sound'', rows'.trans rows, cols'.trans cols⟩

theorem repeat_keeps (h : g.Sound) (n : Nat) : g.Keeps (g.repeat_ n) := by
  unfold repeat_
  split
  · rename_i character _
    have step : ∀ g' : Grid, (g'.Sound ∧ g'.rows = g.rows ∧ g'.cols = g.cols) →
        ∃ g'', g'.print character = some g'' ∧ g''.Sound ∧ g''.rows = g.rows ∧
          g''.cols = g.cols := by
      rintro g' ⟨sound, rows, cols⟩
      obtain ⟨g'', hp, sound', rows', cols'⟩ := print_keeps sound character
      exact ⟨g'', hp, sound', rows'.trans rows, cols'.trans cols⟩
    exact times_keeps step _ ⟨h, rfl, rfl⟩
  · exact h.keeps

/-! ### Screens and modes -/

theorem blank_shaped (rows cols : Nat) : Shaped rows cols (List.replicate rows (Row.blank cols)) :=
  .replicate rows (Row.blank_wide cols)

theorem alternate_keeps (h : g.Sound) (on : Bool) : g.Keeps (some (g.alternate on)) := by
  unfold alternate
  split
  · refine ⟨_, rfl, ⟨blank_shaped _ _, fun screen parked => ?_, h.row, h.col, h.top, h.bottom⟩, rfl,
      rfl⟩
    cases parked
    exact h.cells
  · rename_i main parked
    refine ⟨_, rfl, ⟨h.parked main parked, fun _ none' => ?_, h.row, h.col, h.top, h.bottom⟩, rfl,
      rfl⟩
    cases none'
  · exact h.keeps

theorem saveCursor_sound (h : g.Sound) : g.saveCursor.Sound :=
  ⟨h.cells, h.parked, h.row, h.col, h.top, h.bottom⟩

theorem setMode_keeps (h : g.Sound) (on : Bool) (mode : Nat) : g.Keeps (g.setMode on mode) := by
  unfold setMode
  split
  · exact ⟨_, rfl, ⟨h.cells, h.parked, h.row, h.col, h.top, h.bottom⟩, rfl, rfl⟩
  split
  · exact ⟨_, rfl, ⟨h.cells, h.parked, h.row, h.col, h.top, h.bottom⟩, rfl, rfl⟩
  split
  · exact alternate_keeps h on
  split
  · split
    · exact (alternate_keeps (saveCursor_sound h) on : Keeps g.saveCursor _)
    · exact (alternate_keeps h on).bind fun _ sound => restoreCursor_keeps sound
  · exact h.keeps

theorem setModes_keeps (h : g.Sound) (params : List Nat) (on : Bool) :
    g.Keeps (g.setModes params on) := by
  unfold setModes
  induction params generalizing g with
  | nil => exact h.keeps
  | cons mode params ih => exact (setMode_keeps h on mode).bind fun _ sound => ih sound

theorem new_sound (rows cols : Nat) : ∃ g, new rows cols = some g ∧ g.Sound ∧
    g.rows = clamp rows 1 maxRows ∧ g.cols = clamp cols 1 maxCols := by
  have oneRow : 1 ≤ clamp rows 1 maxRows := clamp_pos rows (by decide)
  have oneCol : 1 ≤ clamp cols 1 maxCols := clamp_pos cols (by decide)
  refine ⟨_, by rw [new, sub_eq oneRow]; rfl, ?_, rfl, rfl⟩
  refine ⟨blank_shaped _ _, fun _ none' => ?_, oneRow, oneCol, Nat.zero_le _,
    Nat.sub_lt oneRow Nat.one_pos⟩
  cases none'

/-! ### Sequences -/

/-- **A grid within the sizes the model keeps.** -/
structure Kept (g : Grid) : Prop extends g.Sound where
  maxRows : g.rows ≤ maxRows
  maxCols : g.cols ≤ maxCols

/-- An operation that keeps the grid. -/
theorem Kept.of_keeps (h : g.Kept) {answer : Option Grid} (keeps : g.Keeps answer) :
    ∃ g', answer = some g' ∧ g'.Kept := by
  obtain ⟨g', rfl, sound, rows, cols⟩ := keeps
  exact ⟨g', rfl, sound, rows ▸ h.maxRows, cols ▸ h.maxCols⟩

theorem control_keeps (h : g.Sound) (byte : UInt8) : g.Keeps (g.control byte) := by
  unfold control
  split
  · exact moveTo_keeps h _ _
  · exact moveTo_keeps h _ _
  · exact lineFeed_keeps h
  · exact lineFeed_keeps h
  · exact lineFeed_keeps h
  · exact moveTo_keeps h _ _
  · exact h.keeps

/-- A reset gives back a screen of the same size, kept already to the most the model keeps. -/
theorem new_keeps (h : g.Kept) : g.Keeps (new g.rows g.cols) := by
  have row := h.row
  have col := h.col
  obtain ⟨g', hg, sound, rows, cols⟩ := new_sound g.rows g.cols
  refine ⟨g', hg, sound, ?_, ?_⟩
  · rw [rows, clamp_self (by omega) h.maxRows]
  · rw [cols, clamp_self (by omega) h.maxCols]

theorem escape_keeps (h : g.Kept) (last : UInt8) : g.Keeps (g.escape last) := by
  have sound := h.toSound
  unfold escape
  split
  · exact ⟨_, rfl, saveCursor_sound sound, rfl, rfl⟩
  · exact restoreCursor_keeps sound
  · exact lineFeed_keeps sound
  · exact (moveTo_keeps sound _ _).bind fun _ sound => lineFeed_keeps sound
  · exact reverseIndex_keeps sound
  · exact new_keeps h
  · exact sound.keeps

theorem csi_keeps (h : g.Sound) (marker : Option UInt8) (params : List Nat) (last : UInt8) :
    g.Keeps (g.csi marker params last) := by
  have one := count_pos params 0
  unfold csi
  dsimp only
  split
  · split
    · split
      · exact setModes_keeps h params true
      · exact setModes_keeps h params false
      · exact h.keeps
    · exact h.keeps
  · split
    · exact moveTo_keeps h _ _
    · exact moveDown_keeps h _ _
    · exact moveDown_keeps h _ _
    · exact moveTo_keeps h _ _
    · exact moveTo_keeps h _ _
    · exact moveTo_keeps h _ _
    · exact moveDown_keeps h _ _
    · exact moveTo_keeps h _ _
    · rw [sub_eq one]; exact moveTo_keeps h _ _
    · rw [sub_eq one]; exact moveTo_keeps h _ _
    · rw [sub_eq one]; exact moveTo_keeps h _ _
    · exact moveAt_keeps h one (count_pos params 1)
    · exact moveAt_keeps h one (count_pos params 1)
    · exact moveTo_keeps h _ _
    · exact moveTo_keeps h _ _
    · exact eraseDisplay_keeps h _
    · exact eraseLine_keeps h _
    · exact insertLines_keeps h _
    · exact deleteLines_keeps h _
    · exact (insertChars_redraws h _).keeps h
    · exact (deleteChars_redraws h _).keeps h
    · exact (eraseChars_redraws h _).keeps h
    · exact (scrollUp_redraws h _).keeps h
    · exact (scrollDown_redraws h _).keeps h
    · exact repeat_keeps h _
    · exact setRegion_keeps h params
    · split
      · exact ⟨_, rfl, saveCursor_sound h, rfl, rfl⟩
      · exact h.keeps
    · exact restoreCursor_keeps h
    · exact ⟨_, rfl, ⟨h.cells, h.parked, h.row, h.col, h.top, h.bottom⟩, rfl, rfl⟩
    · exact h.keeps

/-- **Whatever a program's bytes said, it is done without a panic, and keeps the grid.** -/
theorem perform_kept (h : g.Kept) (action : Action) : ∃ g', g.perform action = some g' ∧ g'.Kept := by
  have sound := h.toSound
  refine h.of_keeps ?_
  unfold perform
  split
  · exact print_keeps sound _
  · exact control_keeps sound _
  · exact escape_keeps h _
  · exact sound.keeps
  · exact csi_keeps sound _ _ _
  · exact sound.keeps

theorem resized_shaped (rows cols : Nat) {screen : List Row} : Shaped rows cols
    (resized rows cols screen) := by
  have sized : Sized rows (fun _ => True) (Vec.resize rows (Row.blank cols) screen) :=
    .resize (fun _ _ => trivial) trivial
  refine ⟨by rw [resized, List.length_map, sized.length], fun row there => ?_⟩
  obtain ⟨before, -, rfl⟩ := List.mem_map.mp there
  exact ⟨.resize (fun _ _ => trivial) trivial, .resize (fun _ _ => trivial) trivial⟩

/-- **Whatever size the pty takes, the screen takes it without a panic, and is kept.** -/
theorem resize_kept (h : g.Kept) (rows cols : Nat) : ∃ g', g.resize rows cols = some g' ∧ g'.Kept := by
  have oneRow : 1 ≤ clamp rows 1 maxRows := clamp_pos rows (by decide)
  have oneCol : 1 ≤ clamp cols 1 maxCols := clamp_pos cols (by decide)
  obtain ⟨cells, hd, -⟩ := h.cells.drain (i := 0)
    (j := min (g.row + 1 - clamp rows 1 maxRows) g.cells.length) (Nat.zero_le _)
    (by rw [h.cells.length]; exact Nat.min_le_right _ _)
  refine ⟨_, by
    rw [resize, hd, sub_eq (Nat.min_le_right _ _), sub_eq oneRow, sub_eq oneCol]; rfl, ?_⟩
  refine ⟨⟨resized_shaped _ _, fun screen parked => ?_, ?_, ?_, Nat.zero_le _, ?_⟩, ?_, ?_⟩
  · obtain ⟨before, -, rfl⟩ := Option.map_eq_some_iff.mp parked
    exact resized_shaped _ _
  · exact Nat.lt_of_le_of_lt (Nat.min_le_right _ _) (Nat.sub_lt oneRow Nat.one_pos)
  · exact Nat.lt_of_le_of_lt (Nat.min_le_right _ _) (Nat.sub_lt oneCol Nat.one_pos)
  · exact Nat.sub_lt oneRow Nat.one_pos
  · exact clamp_le _ _ _
  · exact clamp_le _ _ _

theorem new_kept (rows cols : Nat) : ∃ g, new rows cols = some g ∧ g.Kept := by
  obtain ⟨g, hg, sound, hr, hc⟩ := new_sound rows cols
  exact ⟨g, hg, sound, hr ▸ clamp_le _ _ _, hc ▸ clamp_le _ _ _⟩

end Grid
end Panes
end ConsensFlow
