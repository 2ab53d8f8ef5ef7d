/-
  File:      ConsensFlow/Panes/Screen.lean
  Subject:   A PANE'S SCREEN, fed the bytes a program prints (`cf-panes`, `screen/parser.rs` and
             `screen.rs`).

  * `Parser.advance` -- one byte read as a terminal reads it, and the actions it completes;
  * `Screen.feed`, `Screen.run` -- chunks of bytes and the pty's sizes, in any order;
  * `Screen.feed_append` -- where a chunk ends does not matter;
  * **`Screen.never_panics`** -- for every first size, every bytes and every sizes, no operation goes
    out of range, and the grid is as it must be.
-/
import ConsensFlow.Panes.Grid

namespace ConsensFlow
namespace Panes

/-! ## 1. The parser -/

def maxString : Nat := 8 * 1024
def maxParams : Nat := 32
def maxParam : Nat := 0xFFFF

inductive ParserState where
  | ground
  | escape
  | escapeIntermediate
  | csi
  /-- A CSI sequence that cannot be one: read to its final byte and dropped. -/
  | csiIgnore
  /-- An OSC, DCS, APC, PM or SOS string, dropped. -/
  | str
  /-- An ESC inside such a string. -/
  | strEscape
  deriving DecidableEq, Repr

/-- Where a run of bytes is. -/
structure Parser where
  state : ParserState
  /-- The start of a UTF-8 character that has not arrived whole, and how long it is to be. -/
  partial_ : List UInt8
  needed : Nat
  marker : Option UInt8
  params : List Nat
  digits : Option Nat
  intermediate : Option UInt8
  dropped : Nat
  deriving DecidableEq, Repr

/-- U+FFFD. -/
def replacementCharacter : Char := Char.ofNat 0xFFFD

/-- The character some bytes are, where they are one in UTF-8. -/
def firstChar (bytes : List UInt8) : Char :=
  ((String.fromUTF8? ⟨bytes.toArray⟩).bind fun text => text.toList.head?).getD replacementCharacter

namespace Parser

def start : Parser := ⟨.ground, [], 0, none, [], none, none, 0⟩

def beginEscape (p : Parser) : Parser := { p with state := .escape, intermediate := none }

def startCharacter (p : Parser) (byte : UInt8) (length : Nat) : Parser :=
  { p with partial_ := p.partial_ ++ [byte], needed := length }

/-- A byte outside a sequence and outside a character begun. -/
def plain (p : Parser) (byte : UInt8) : Parser × List Action :=
  let b := byte.toNat
  if b = 0x1B then (p.beginEscape, [])
  else if b = 0x18 ∨ b = 0x1A then (p, [])
  else if b ≤ 0x1F then (p, [.control byte])
  else if b ≤ 0x7E then (p, [.print (Char.ofNat b)])
  else if b = 0x7F then (p, [])
  else if 0xC2 ≤ b ∧ b ≤ 0xDF then (p.startCharacter byte 2, [])
  else if 0xE0 ≤ b ∧ b ≤ 0xEF then (p.startCharacter byte 3, [])
  else if 0xF0 ≤ b ∧ b ≤ 0xF4 then (p.startCharacter byte 4, [])
  else (p, [.print replacementCharacter])

def ground (p : Parser) (byte : UInt8) : Parser × List Action :=
  if p.partial_.isEmpty then p.plain byte
  else if 0x80 ≤ byte.toNat ∧ byte.toNat ≤ 0xBF then
    let bytes := p.partial_ ++ [byte]
    if bytes.length = p.needed then ({ p with partial_ := [] }, [.print (firstChar bytes)])
    else ({ p with partial_ := bytes }, [])
  else
    -- The character was cut short by something else: it is lost.
    let (p, actions) := plain { p with partial_ := [] } byte
    (p, .print replacementCharacter :: actions)

def escape (p : Parser) (byte : UInt8) : Parser × List Action :=
  let b := byte.toNat
  if b = 0x5B then
    ({ p with state := .csi, marker := none, params := [], digits := none, intermediate := none },
      [])
  else if b = 0x5D ∨ b = 0x50 ∨ b = 0x58 ∨ b = 0x5E ∨ b = 0x5F then
    ({ p with state := .str, dropped := 0 }, [])
  else if 0x20 ≤ b ∧ b ≤ 0x2F then
    ({ p with intermediate := some byte, state := .escapeIntermediate }, [])
  else if 0x30 ≤ b ∧ b ≤ 0x7E then ({ p with state := .ground }, [.escape none byte])
  else ({ p with state := .ground }, [])

def escapeIntermediate (p : Parser) (byte : UInt8) : Parser × List Action :=
  let b := byte.toNat
  if 0x20 ≤ b ∧ b ≤ 0x2F then ({ p with intermediate := some byte }, [])
  else if 0x30 ≤ b ∧ b ≤ 0x7E then
    ({ p with state := .ground, intermediate := none }, [.escape p.intermediate byte])
  else ({ p with state := .ground }, [])

/-- The parameters with the one being read at their end. -/
def pushed (p : Parser) : List Nat := p.params ++ [p.digits.getD 0]

def csi (p : Parser) (byte : UInt8) : Parser × List Action :=
  let b := byte.toNat
  if 0x30 ≤ b ∧ b ≤ 0x39 then
    ({ p with digits := some (min (p.digits.getD 0 * 10 + (b - 0x30)) maxParam) }, [])
  else if b = 0x3B ∨ b = 0x3A then
    ({ p with
      params := if p.params.length < maxParams then p.pushed else p.params, digits := none }, [])
  else if 0x3C ≤ b ∧ b ≤ 0x3F then
    if p.marker.isNone ∧ p.params.isEmpty ∧ p.digits.isNone then
      ({ p with marker := some byte }, [])
    else ({ p with state := .csiIgnore }, [])
  else if 0x20 ≤ b ∧ b ≤ 0x2F then ({ p with intermediate := some byte }, [])
  else if 0x40 ≤ b ∧ b ≤ 0x7E then
    let params := if p.digits.isSome ∨ ¬ p.params.isEmpty then p.pushed else p.params
    ({ p with state := .ground, marker := none, params := [], digits := none, intermediate := none },
      [.csi p.marker params p.intermediate byte])
  else ({ p with state := .ground }, [])

/-- A byte inside an escape or a CSI sequence. -/
def sequence (p : Parser) (byte : UInt8) : Parser × List Action :=
  let b := byte.toNat
  if b = 0x18 ∨ b = 0x1A then ({ p with state := .ground }, [])
  else if b = 0x1B then (p.beginEscape, [])
  else if b < 0x20 then (p, [.control byte])
  else match p.state with
    | .escape => p.escape byte
    | .escapeIntermediate => p.escapeIntermediate byte
    | .csi => p.csi byte
    | .csiIgnore => if 0x40 ≤ b ∧ b ≤ 0x7E then ({ p with state := .ground }, []) else (p, [])
    | _ => (p, [])

def string (p : Parser) (byte : UInt8) : Parser :=
  let b := byte.toNat
  let p := { p with dropped := p.dropped + 1 }
  if b = 0x07 then { p with state := .ground }
  else if b = 0x1B then { p with state := .strEscape }
  else if b = 0x18 ∨ b = 0x1A then { p with state := .ground }
  else if p.dropped > maxString then { p with state := .ground }
  else p

/-- Reads one byte: what it completes, in order. -/
def advance (p : Parser) (byte : UInt8) : Parser × List Action :=
  match p.state with
  | .ground => p.ground byte
  | .str => (p.string byte, [])
  | .strEscape =>
    if byte.toNat = 0x5C then ({ p with state := .ground }, [])
    -- Not the end of the string: the escape sequence of its own.
    else p.beginEscape.sequence byte
  | _ => p.sequence byte

end Parser

/-! ## 2. The screen -/

structure Screen where
  parser : Parser
  grid : Grid

/-- What comes to a screen: a chunk of what the program printed, or another size of the pty. -/
inductive Input where
  | feed (bytes : List UInt8)
  | resize (rows cols : UInt16)

namespace Screen

def new (rows cols : UInt16) : Option Screen := do
  let grid ← Grid.new rows.toNat cols.toNat
  some ⟨.start, grid⟩

/-- One byte, and what it completes done to the grid. -/
def byte (s : Screen) (byte : UInt8) : Option Screen := do
  let read := s.parser.advance byte
  let grid ← read.2.foldlM Grid.perform s.grid
  some ⟨read.1, grid⟩

/-- The program printed `bytes`: they may end anywhere. -/
def feed (s : Screen) (bytes : List UInt8) : Option Screen := bytes.foldlM Screen.byte s

def resize (s : Screen) (rows cols : UInt16) : Option Screen := do
  let grid ← s.grid.resize rows.toNat cols.toNat
  some { s with grid := grid }

def take (s : Screen) : Input → Option Screen
  | .feed bytes => s.feed bytes
  | .resize rows cols => s.resize rows cols

/-- A screen of a first size, after everything that came to it. -/
def run (rows cols : UInt16) (inputs : List Input) : Option Screen := do
  let s ← new rows cols
  inputs.foldlM take s

/-- Where a chunk ends does not matter. -/
theorem feed_append (s : Screen) (bytes more : List UInt8) :
    s.feed (bytes ++ more) = (s.feed bytes).bind fun s => s.feed more :=
  List.foldlM_append

/-! ## 3. No input makes it panic -/

variable {s : Screen}

theorem performs_kept {g : Grid} (h : g.Kept) (actions : List Action) :
    ∃ g', actions.foldlM Grid.perform g = some g' ∧ g'.Kept := by
  induction actions generalizing g with
  | nil => exact ⟨g, rfl, h⟩
  | cons action actions ih =>
    obtain ⟨g₁, h₁, kept₁⟩ := Grid.perform_kept h action
    obtain ⟨g₂, h₂, kept₂⟩ := ih kept₁
    exact ⟨g₂, by rw [List.foldlM_cons, h₁]; exact h₂, kept₂⟩

theorem byte_kept (h : s.grid.Kept) (byte : UInt8) : ∃ s', s.byte byte = some s' ∧ s'.grid.Kept := by
  obtain ⟨grid, hg, kept⟩ := performs_kept h (s.parser.advance byte).2
  exact ⟨⟨(s.parser.advance byte).1, grid⟩, by rw [Screen.byte, hg]; rfl, kept⟩

theorem feed_kept (h : s.grid.Kept) (bytes : List UInt8) :
    ∃ s', s.feed bytes = some s' ∧ s'.grid.Kept := by
  unfold feed
  induction bytes generalizing s with
  | nil => exact ⟨s, rfl, h⟩
  | cons byte bytes ih =>
    obtain ⟨s₁, h₁, kept₁⟩ := byte_kept h byte
    obtain ⟨s₂, h₂, kept₂⟩ := ih kept₁
    exact ⟨s₂, by rw [List.foldlM_cons, h₁]; exact h₂, kept₂⟩

theorem take_kept (h : s.grid.Kept) (input : Input) :
    ∃ s', s.take input = some s' ∧ s'.grid.Kept := by
  cases input with
  | feed bytes => exact feed_kept h bytes
  | resize rows cols =>
    obtain ⟨grid, hg, kept⟩ := Grid.resize_kept h rows.toNat cols.toNat
    exact ⟨{ s with grid := grid }, by show s.resize rows cols = _; rw [resize, hg]; rfl, kept⟩

/-- **For every first size, and whatever bytes and sizes come after it, the screen takes them without
    a panic, and its grid has exactly its rows and columns on both screens, its cursor on them and
    its region in order.** -/
theorem never_panics (rows cols : UInt16) (inputs : List Input) :
    ∃ s, run rows cols inputs = some s ∧ s.grid.Sound := by
  obtain ⟨grid, hg, kept⟩ := Grid.new_kept rows.toNat cols.toNat
  suffices ∀ s : Screen, s.grid.Kept →
      ∃ s', inputs.foldlM take s = some s' ∧ s'.grid.Kept by
    obtain ⟨s, hs, kept'⟩ := this ⟨.start, grid⟩ kept
    exact ⟨s, by rw [run, new, hg]; exact hs, kept'.toSound⟩
  induction inputs with
  | nil => exact fun s kept => ⟨s, rfl, kept⟩
  | cons input inputs ih =>
    intro s kept
    obtain ⟨s₁, h₁, kept₁⟩ := take_kept kept input
    obtain ⟨s₂, h₂, kept₂⟩ := ih s₁ kept₁
    exact ⟨s₂, by rw [List.foldlM_cons, h₁]; exact h₂, kept₂⟩

end Screen
end Panes
end ConsensFlow
