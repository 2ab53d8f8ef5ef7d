/-
  File:      ConsensFlow/Lib/Text.lean
  Subject:   READING TEXT: the string operations a program uses to take apart words it wrote
             itself, over a text's characters.

  * `stripPrefix`, `stripSuffix`, `splitOnce`, `splitAll`, `contains` -- as Rust's `str` has
    them (`strip_prefix`, `strip_suffix`, `split_once`, `split`, `contains`);
  * `parseI64` -- `str::parse::<i64>`;
  * `utf16Len`, `utf16Prefix`, `jsTrim` -- lengths, prefixes and trimming as JavaScript counts
    them, in UTF-16 code units;
  * `quoted` -- a text as `JSON.stringify` prints it.
-/
import Mathlib

namespace Lib.Text

/-! ## 1. Taking apart -/

/-- What follows `p`, where the text begins with it. -/
def stripPrefix : List Char → List Char → Option (List Char)
  | [], cs => some cs
  | _ :: _, [] => none
  | p :: ps, c :: cs => if p = c then stripPrefix ps cs else none

/-- What comes before `q`, where the text ends with it. -/
def stripSuffix (q cs : List Char) : Option (List Char) :=
  (stripPrefix q.reverse cs.reverse).map List.reverse

/-- The text before the first `sep`, and the text after it. -/
def splitOnce (sep : List Char) : List Char → Option (List Char × List Char)
  | [] => (stripPrefix sep []).map fun rest => ([], rest)
  | c :: cs =>
    match stripPrefix sep (c :: cs) with
    | some rest => some ([], rest)
    | none => (splitOnce sep cs).map fun (a, b) => (c :: a, b)

/-- The pieces between the separators, at most `fuel` splits deep. -/
def splitFuel (sep : List Char) : Nat → List Char → List (List Char)
  | 0, cs => [cs]
  | fuel + 1, cs =>
    match splitOnce sep cs with
    | some (a, b) => a :: splitFuel sep fuel b
    | none => [cs]

/-- The pieces of the text between the separators. -/
def splitAll (sep cs : List Char) : List (List Char) := splitFuel sep cs.length cs

/-- Whether `sub` occurs in the text. -/
def contains (sub cs : List Char) : Bool := (splitOnce sub cs).isSome

/-! ## 2. Numbers -/

/-- The value of a run of decimal digits, `acc` before it; none where there is another sign. -/
def digits (acc : Nat) : List Char → Option Nat
  | [] => some acc
  | c :: cs => if c.isDigit then digits (acc * 10 + (c.toNat - '0'.toNat)) cs else none

/-- A text read as an `i64`: a sign or none, then digits, within range. -/
def parseI64 : List Char → Option Int
  | [] => none
  | '-' :: c :: cs => (digits 0 (c :: cs)).bind fun n => if n ≤ 2 ^ 63 then some (-n) else none
  | '+' :: c :: cs => (digits 0 (c :: cs)).bind fun n => if n < 2 ^ 63 then some n else none
  | cs => (digits 0 cs).bind fun n => if n < 2 ^ 63 then some n else none

/-! ## 3. As JavaScript counts -/

def utf16Width (c : Char) : Nat := if c.toNat < 0x10000 then 1 else 2

def utf16Len (s : String) : Nat := (s.toList.map utf16Width).sum

/-- The first `units` code units; a character cut in half reads U+FFFD. -/
def utf16Take : Nat → List Char → List Char
  | _, [] => []
  | units, c :: cs =>
    if utf16Width c ≤ units then c :: utf16Take (units - utf16Width c) cs
    else if 0 < units then [Char.ofNat 0xFFFD] else []

def utf16Prefix (s : String) (units : Nat) : String := String.ofList (utf16Take units s.toList)

/-- What JavaScript's `.trim()` takes for white space. -/
def isSpace (c : Char) : Bool :=
  let n := c.toNat
  n == 0xFEFF || (0x9 ≤ n && n ≤ 0xD) || n == 0x20 || n == 0xA0 || n == 0x1680 ||
    (0x2000 ≤ n && n ≤ 0x200A) || n == 0x2028 || n == 0x2029 || n == 0x202F || n == 0x205F ||
    n == 0x3000

def trimList (cs : List Char) : List Char :=
  ((cs.dropWhile isSpace).reverse.dropWhile isSpace).reverse

def jsTrim (s : String) : String := String.ofList (trimList s.toList)

/-! ## 4. As JSON prints it -/

def hexDigit (n : Nat) : Char := if n < 10 then Char.ofNat (48 + n) else Char.ofNat (87 + n)

def escaped (c : Char) : List Char :=
  if c = '"' then ['\\', '"']
  else if c = '\\' then ['\\', '\\']
  else if c.toNat = 8 then ['\\', 'b']
  else if c.toNat = 9 then ['\\', 't']
  else if c.toNat = 10 then ['\\', 'n']
  else if c.toNat = 12 then ['\\', 'f']
  else if c.toNat = 13 then ['\\', 'r']
  else if c.toNat < 32 then
    ['\\', 'u', '0', '0', hexDigit (c.toNat / 16), hexDigit (c.toNat % 16)]
  else [c]

def quoted (s : String) : String := String.ofList (['"'] ++ s.toList.flatMap escaped ++ ['"'])

end Lib.Text
