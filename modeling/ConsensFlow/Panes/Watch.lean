/-
  File:      ConsensFlow/Panes/Watch.lean
  Subject:   THE HUMAN'S INPUT, READ AS IT COMES (`cf-panes`, `arbiter.rs`): where a bracketed paste
             begins and ends across the writes it comes in, and what the keys leave unsent.

  * `PasteWatch.feed` -- the pastes that end in a write, and which of its bytes are keys;
  * `partsEndingPastes` -- a write in parts that each end where a paste ends;
  * `feedFrom_fuel` -- the scan is never cut short: each round takes a marker off what is left;
  * `keysOf` -- the characters left unsent in the window's input box, as near as keys tell.
-/
import Mathlib

namespace ConsensFlow
namespace Panes

abbrev Bytes := List UInt8

/-! ## 1. Pastes -/

/-- `PASTE_START`. -/
def pasteStart : Bytes := [0x1b, 0x5b, 0x32, 0x30, 0x30, 0x7e]

/-- `PASTE_END`. -/
def pasteEnd : Bytes := [0x1b, 0x5b, 0x32, 0x30, 0x31, 0x7e]

/-- The bytes that begin a character. -/
def charactersIn (text : Bytes) : Nat := (text.filter fun b => b &&& 0xC0 != 0x80).length

/-- Where `marker` first is in `bytes`. -/
def positionOf (bytes marker : Bytes) : Option Nat :=
  (List.range (bytes.length + 1 - marker.length)).find? fun i =>
    (bytes.drop i).take marker.length == marker

/-- `PASTE_ABANDONED_AFTER`, in milliseconds. -/
def pasteAbandonedAfter : Nat := 10000

/-- Where the human's input stands in a bracketed paste. -/
structure PasteWatch where
  opened : Option Nat := none
  carried : Bytes := []
  idleSince : Option Nat := none
  abandonedAfter : Nat := pasteAbandonedAfter
  deriving DecidableEq, Repr

/-- A paste that ends in a write: where in it, and the characters it held. -/
structure PasteEnd where
  at_ : Nat
  characters : Nat
  deriving DecidableEq, Repr

/-- A piece of a write: keys typed, from one place to another, or characters of a paste. -/
inductive Segment where
  | typed (start stop : Nat)
  | pasted (characters : Nat)
  deriving DecidableEq, Repr

/-- What a write of the human's holds. -/
structure Fed where
  ends : List PasteEnd := []
  segments : List Segment := []
  deriving DecidableEq, Repr

namespace Fed

def typed (fed : Fed) (start stop : Nat) : Fed :=
  if start < stop then { fed with segments := fed.segments ++ [.typed start stop] } else fed

def pasted (fed : Fed) (characters : Nat) : Fed :=
  { fed with segments := fed.segments ++ [.pasted characters] }

def ended (fed : Fed) (at_ characters : Nat) : Fed :=
  { fed with ends := fed.ends ++ [{ at_, characters }] }

end Fed

/-- `carry`: how much of the end of `rest` could begin one of `markers`. -/
def carryLength (rest : Bytes) (markers : List Bytes) : Nat :=
  ([5, 4, 3, 2, 1].find? fun held => decide (held ≤ rest.length) &&
    markers.any fun marker => (rest.drop (rest.length - held)).isPrefixOf marker).getD 0

/-- What is carried of `rest` to the next write. -/
def carriedOf (rest : Bytes) (markers : List Bytes) : Bytes :=
  rest.drop (rest.length - carryLength rest markers)

/-- Where the scan of a write ends: the paste open, what is carried, and what was read. -/
abbrev Scanned := Option Nat × Bytes × Fed

/-- The loop of `feed`, at place `at_` of `stream`, the write `bytes` after the `carried` bytes of
    the one before. -/
def feedFrom (bytes stream : Bytes) (carried : Nat) : Nat → Option Nat → Nat → Fed → Scanned
  | 0, opened, _, fed => (opened, [], fed)
  | fuel + 1, none, at_, fed =>
    let rest := stream.drop at_
    match positionOf rest pasteStart with
    | none => (none, carriedOf rest [pasteStart], fed.typed (at_ - carried) bytes.length)
    | some start =>
      feedFrom bytes stream carried fuel (some 0) (at_ + start + pasteStart.length)
        ((fed.typed (at_ - carried) (at_ + start - carried)).pasted 0)
  | fuel + 1, some characters, at_, fed =>
    let rest := stream.drop at_
    let opening := positionOf rest pasteStart
    match (positionOf rest pasteEnd).filter fun stop => opening.all fun start => stop < start with
    | some stop =>
      let content := charactersIn (rest.take stop)
      let next := at_ + stop + pasteEnd.length
      feedFrom bytes stream carried fuel none next
        ((fed.pasted content).ended (next - carried) (characters + content))
    | none =>
      match opening with
      | some start =>
        -- an opening marker in a paste starts it again
        feedFrom bytes stream carried fuel (some 0) (at_ + start + pasteStart.length)
          (fed.pasted (charactersIn (rest.take start)))
      | none =>
        let held := carryLength rest [pasteEnd, pasteStart]
        let content := charactersIn (rest.take (rest.length - held))
        (some (characters + content), carriedOf rest [pasteEnd, pasteStart], fed.pasted content)

/-- A paste cut off is forgotten. -/
def PasteWatch.resumed (w : PasteWatch) (now : Nat) : PasteWatch :=
  if w.idleSince.any fun since => decide (w.abandonedAfter < now - since) then
    { w with opened := none, carried := [] }
  else w

/-- `feed`: what the human's next write holds, and where the input stands after it. -/
def PasteWatch.feed (w : PasteWatch) (bytes : Bytes) (now : Nat) : PasteWatch × Fed :=
  let w := w.resumed now
  let stream := w.carried ++ bytes
  let (opened, carried, fed) :=
    feedFrom bytes stream w.carried.length (stream.length + 1) w.opened 0 {}
  ({ w with opened, carried, idleSince := some now }, fed)

/-- `idle`. -/
def PasteWatch.idle (w : PasteWatch) (now : Nat) : PasteWatch := { w with idleSince := some now }

section Fuel

variable {bytes stream : Bytes} {carried : Nat}

/-- A marker found in what is left is within it. -/
theorem positionOf_lt {at_ start : Nat} {marker : Bytes} (hm : 0 < marker.length)
    (h : positionOf (stream.drop at_) marker = some start) :
    at_ + start + marker.length ≤ stream.length := by
  have hs := List.mem_range.mp (List.mem_of_find?_eq_some h)
  rw [List.length_drop] at hs
  omega

/-- **The scan is never cut short**: fuel for what is left of the stream is enough. -/
theorem feedFrom_fuel {fuel fuel' : Nat} {opened : Option Nat} {at_ : Nat} {fed : Fed}
    (h : stream.length - at_ < fuel) (h' : stream.length - at_ < fuel') :
    feedFrom bytes stream carried fuel opened at_ fed =
      feedFrom bytes stream carried fuel' opened at_ fed := by
  induction fuel generalizing fuel' opened at_ fed with
  | zero => exact absurd h (Nat.not_lt_zero _)
  | succ fuel ih =>
    cases fuel' with
    | zero => exact absurd h' (Nat.not_lt_zero _)
    | succ fuel' =>
      have h6 : pasteStart.length = 6 ∧ pasteEnd.length = 6 := ⟨rfl, rfl⟩
      cases opened with
      | none =>
        simp only [feedFrom]
        cases hp : positionOf (stream.drop at_) pasteStart with
        | none => rfl
        | some start =>
          have hl := positionOf_lt (by decide) hp
          refine ih ?_ ?_ <;> omega
      | some characters =>
        simp only [feedFrom]
        cases hc : (positionOf (stream.drop at_) pasteEnd).filter fun stop =>
            (positionOf (stream.drop at_) pasteStart).all fun start => decide (stop < start) with
        | some stop =>
          have hl := positionOf_lt (by decide) (Option.filter_eq_some_iff.mp hc).1
          refine ih ?_ ?_ <;> omega
        | none =>
          cases hp : positionOf (stream.drop at_) pasteStart with
          | none => rfl
          | some start =>
            have hl := positionOf_lt (by decide) hp
            refine ih ?_ ?_ <;> omega

end Fuel

/-- The parts of `bytes` from `start` on. -/
def partsFrom (bytes : Bytes) : Nat → List PasteEnd → List (Bytes × Option Nat)
  | start, [] => if start < bytes.length then [(bytes.drop start, none)] else []
  | start, e :: ends =>
    ((bytes.take e.at_).drop start, some e.characters) :: partsFrom bytes e.at_ ends

/-- `parts_ending_pastes`: a write in parts that each end where a paste ends, each with the
    characters of that paste, and what follows the last. -/
def partsEndingPastes (bytes : Bytes) (ends : List PasteEnd) : List (Bytes × Option Nat) :=
  match partsFrom bytes 0 ends with
  | [] => [(bytes, none)]
  | parts => parts

/-! ## 2. Keys -/

/-- `HUMAN_WRITE_CLASSES`. -/
inductive Class where
  | text | paste | enter | erase | control | escape | string | mouse | focus
  deriving DecidableEq, Repr

/-- What a write holds: the characters its keys leave unsent, whether it holds any key, and the
    kinds of its bytes. -/
structure Keys where
  unsent : Nat
  keyed : Bool := false
  classes : List Class := []
  deriving DecidableEq, Repr

def Keys.with_ (keys : Keys) (class_ : Class) : Keys :=
  { keys with classes := keys.classes.insert class_ }

/-- `csi_end`: the bytes of `rest` that are the sequence it begins with. -/
def csiEnd (rest : Bytes) : Nat :=
  (((rest.drop 2).findIdx? fun b => decide (0x40 ≤ b) && decide (b ≤ 0x7e)).map (· + 3)).getD
    rest.length

/-- `string_end`: the bytes of a terminal's string, with its ending. -/
def stringEnd : Bytes → Nat
  | [] => 0
  | 0x07 :: _ => 1
  | 0x1b :: 0x5c :: _ => 2
  | _ :: rest => stringEnd rest + 1

/-- What the terminal says of itself, at the head of `rest`: its kind, and its bytes. -/
def reportAt (rest : Bytes) : Option (Class × Nat) :=
  match rest with
  | 0x1b :: kind :: body =>
    if [0x5d, 0x50, 0x5f, 0x5e, 0x58].contains kind then some (.string, 2 + stringEnd body)
    else if kind = 0x5b then
      match body with
      | 0x4d :: _ => some (.mouse, min 6 rest.length)
      | 0x3c :: _ => some (.mouse, csiEnd rest)
      | 0x49 :: _ => some (.focus, csiEnd rest)
      | 0x4f :: _ => some (.focus, csiEnd rest)
      | _ => none
    else none
  | _ => none

/-- One key, at the head of `rest`: what it leaves, and its bytes. -/
def keyAt (keys : Keys) (rest : Bytes) : Keys × Nat :=
  match rest with
  | [] => (keys, 0)
  | b :: after =>
    if b = 0x0d || b = 0x0a then ({ keys with unsent := 0 }.with_ .enter, 1)
    else if b = 0x03 then ({ keys with unsent := 0 }.with_ .control, 1)
    else if b = 0x15 then ({ keys with unsent := 0 }.with_ .erase, 1)
    else if b = 0x7f || b = 0x08 then ({ keys with unsent := keys.unsent - 1 }.with_ .erase, 1)
    else if b = 0x16 then ({ keys with unsent := keys.unsent + 1 }.with_ .control, 1)
    else if b = 0x1b then
      (keys.with_ .escape, match after with
        | 0x5b :: _ => csiEnd rest
        | 0x4f :: _ => min 3 rest.length
        | _ :: _ => 2
        | [] => 1)
    else if b < 0x20 then (keys.with_ .control, 1)
    else if b &&& 0xC0 != 0x80 then ({ keys with unsent := keys.unsent + 1 }.with_ .text, 1)
    else (keys, 1)

/-- `typed_keys`, in as many rounds as there are bytes. -/
def typedKeys : Nat → Keys → Bytes → Keys
  | 0, keys, _ => keys
  | _, keys, [] => keys
  | fuel + 1, keys, rest =>
    match reportAt rest with
    | some (class_, taken) => typedKeys fuel (keys.with_ class_) (rest.drop taken)
    | none =>
      let (keys, taken) := keyAt { keys with keyed := true } rest
      typedKeys fuel keys (rest.drop taken)

/-- `keys_of`: only the bytes outside a paste are read as keys. -/
def keysOf (unsent : Nat) (bytes : Bytes) (segments : List Segment) : Keys :=
  segments.foldl (fun keys segment => match segment with
    | .typed start stop =>
      let typed := (bytes.take stop).drop start
      typedKeys typed.length keys typed
    | .pasted characters =>
      { keys with keyed := true, unsent := keys.unsent + characters }.with_ .paste) { unsent }

end Panes
end ConsensFlow
