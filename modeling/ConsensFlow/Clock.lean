/-
  File:      ConsensFlow/Clock.lean
  Subject:   TIME AS TEXT (`cf-base`: `time.rs`): an instant in milliseconds, written as
             `toISOString` writes it, and read from the date-time format `Date.parse` accepts.

  * `iso` -- an instant as the ledger keeps it;
  * `parseTime` -- the instant a text names, none where it names none;
  * `canonicalTime` -- a text as a store keeps a time.
-/
import ConsensFlow.Model
import ConsensFlow.Lib.Text

namespace ConsensFlow

open Lib.Text

def msPerDay : Int := 86400000

/-- `LAST_MS`: the latest instant a date holds. -/
def lastMs : Int := 8640000000000000

/-! ## 1. The calendar -/

def isLeap (year : Int) : Bool :=
  (year.tmod 4 == 0 && year.tmod 100 != 0) || year.tmod 400 == 0

def daysInMonth (year month : Int) : Int :=
  if month = 2 then (if isLeap year then 29 else 28)
  else if month = 4 ∨ month = 6 ∨ month = 9 ∨ month = 11 then 30
  else 31

def daysFromCivil (year month day : Int) : Int :=
  let year := if month ≤ 2 then year - 1 else year
  let era := year.ediv 400
  let ofEra := year - era * 400
  let ofYear := (153 * (month + (if month > 2 then -3 else 9)) + 2).tdiv 5 + day - 1
  let ofCycle := ofEra * 365 + ofEra.tdiv 4 - ofEra.tdiv 100 + ofYear
  era * 146097 + ofCycle - 719468

def civilFromDays (days : Int) : Int × Int × Int :=
  let days := days + 719468
  let era := days.ediv 146097
  let ofEra := days - era * 146097
  let ofCycle := (ofEra - ofEra.tdiv 1460 + ofEra.tdiv 36524 - ofEra.tdiv 146096).tdiv 365
  let ofYear := ofEra - (365 * ofCycle + ofCycle.tdiv 4 - ofCycle.tdiv 100)
  let shifted := (5 * ofYear + 2).tdiv 153
  let day := ofYear - (153 * shifted + 2).tdiv 5 + 1
  let month := if shifted < 10 then shifted + 3 else shifted - 9
  (ofCycle + era * 400 + (if month ≤ 2 then 1 else 0), month, day)

/-! ## 2. Written -/

/-- A number with zeros before it, at least `width` digits. -/
def padded (width : Nat) (n : Nat) : List Char :=
  let digits := (toString n).toList
  List.replicate (width - digits.length) '0' ++ digits

def isoYear (year : Int) : List Char :=
  if 0 ≤ year ∧ year ≤ 9999 then padded 4 year.toNat
  else (if year < 0 then '-' else '+') :: padded 6 year.natAbs

/-- `iso`: an instant in UTC, to the millisecond. -/
def iso (ms : Int) : String :=
  let ofDay := (ms.emod msPerDay).toNat
  let (year, month, day) := civilFromDays (ms.ediv msPerDay)
  String.ofList (isoYear year ++ '-' :: padded 2 month.toNat ++ '-' :: padded 2 day.toNat ++
    'T' :: padded 2 (ofDay / 3600000) ++ ':' :: padded 2 (ofDay / 60000 % 60) ++
    ':' :: padded 2 (ofDay / 1000 % 60) ++ '.' :: padded 3 (ofDay % 1000) ++ ['Z'])

/-! ## 3. Read -/

/-- `take_digits`: exactly `width` digits, and the rest. -/
def takeDigits (width : Nat) (rest : List Char) : Option (Int × List Char) :=
  let digits := rest.take width
  if digits.length = width && digits.all Char.isDigit then
    some (digits.foldl (fun n c => n * 10 + (c.toNat - '0'.toNat : Nat)) 0, rest.drop width)
  else none

/-- `take_part`: a separator, then digits; the text as it was where they are not there. -/
def takePart (rest : List Char) (separator : Char) (width : Nat) : Option (Int × List Char) :=
  match rest with
  | c :: after => if c = separator then takeDigits width after else none
  | [] => none

def takeYear (rest : List Char) : Option (Int × List Char) :=
  match rest with
  | '-' :: after => (takeDigits 6 after).bind fun (year, rest) =>
      -- -000000 is no year
      if year = 0 then none else some (-year, rest)
  | '+' :: after => takeDigits 6 after
  | _ => takeDigits 4 rest

/-- The milliseconds of a fraction, whether its every digit is zero, and the rest: none where a
    point has no digit after it. -/
def takeFraction (rest : List Char) : Option (Int × Bool × List Char) :=
  match rest with
  | '.' :: fraction =>
    let all := fraction.takeWhile Char.isDigit
    if all.isEmpty then none
    else (takeDigits 3 (all ++ ['0', '0'])).map fun (first, _) =>
      (first, all.all (· == '0'), fraction.drop all.length)
  | _ => some (0, true, rest)

/-- The zone's offset in milliseconds, and the rest. -/
def takeOffset (rest : List Char) : Option (Int × List Char) :=
  match rest with
  | 'Z' :: rest => some (0, rest)
  | c :: after =>
    if c = '+' ∨ c = '-' then do
      let (hours, rest) ← takeDigits 2 after
      let (minutes, rest) ← takePart rest ':' 2
      if hours > 23 ∨ minutes > 59 then none
      else some ((if c = '-' then -1 else 1) * (hours * 60 + minutes) * 60000, rest)
    else none
  | [] => none

/-- The time of day after its `T`, in milliseconds of UTC, and the rest. -/
def takeTime (rest : List Char) : Option (Int × List Char) := do
  let (hours, rest) ← takeDigits 2 rest
  let (minutes, rest) ← takePart rest ':' 2
  let seconds := takePart rest ':' 2
  -- a fraction is of a second: one after the minutes is no time
  let (millis, zero, rest) ← match seconds with
    | some (_, rest) => takeFraction rest
    | none => some (0, true, rest)
  let seconds := (seconds.map (·.1)).getD 0
  let endsDay := hours = 24 ∧ minutes = 0 ∧ seconds = 0 ∧ zero
  if (hours > 23 ∧ ¬ endsDay) ∨ minutes > 59 ∨ seconds > 59 then none
  else do
    let (offset, rest) ← takeOffset rest
    some (((hours * 60 + minutes) * 60 + seconds) * 1000 + millis - offset, rest)

/-- `parse`: the instant a text names. -/
def parseTime (text : String) : Option Time := do
  let (year, rest) ← takeYear text.toList
  let (month, rest) := (takePart rest '-' 2).getD (1, rest)
  let (day, rest) :=
    if text.toList.length - rest.length > 4 then (takePart rest '-' 2).getD (1, rest) else (1, rest)
  if ¬ (1 ≤ month ∧ month ≤ 12) ∨ day < 1 ∨ day > daysInMonth year month then none
  else do
    let (ofDay, rest) ← match rest with
      | 'T' :: time => takeTime time
      | _ => some (0, rest)
    let ms := daysFromCivil year month day * msPerDay + ofDay
    if rest.isEmpty && ms.natAbs ≤ lastMs.natAbs then some ms else none

/-- `canonical`: a time as a store keeps it, with the digits of its fraction past the
    milliseconds, to the nanosecond. -/
def canonicalTime (text : String) : Option String := do
  let ms ← parseTime text
  let written := (iso ms).toList
  let finer := match splitOnce ['.'] text.toList with
    | none => []
    | some (_, fraction) =>
      (((((fraction.takeWhile Char.isDigit).take 9).drop 3).reverse).dropWhile (· == '0')).reverse
  some (String.ofList (if finer.isEmpty then written else written.dropLast ++ finer ++ ['Z']))

end ConsensFlow
