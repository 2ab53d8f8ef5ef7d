/-
  File:      ConsensFlow/Sorting.lean
  Subject:   TIMES AS TEXTS, IN ORDER: the text of any time `parse` reads, beside those `iso` writes.

  * `timeSortsFrom`, `sortsFrom` -- the instant from which texts of `iso` sort at or after a time's;
  * `lt_timeSortsFrom`, `lt_restSortsFrom` -- the texts of a day, and of a year, are in order as their
    instants are;
  * `style` -- how a year is written: with a plus, with a minus, or in four digits, in the order that
    the texts sort;
  * **`lt_text`** -- a text of `iso` beside a time's: by their styles, and else by the instants.
-/
import ConsensFlow.Instants

namespace ConsensFlow

open Lib.Digits

/-! ## 1. From when a text sorts -/

/-- How much later a text sorts for the `Z` that ends it: a `Z` is after all that a unit holds. -/
def slack (rest : List Char) (unit : Int) : Int := if rest.head? = some 'Z' then unit else 0

/-- The unit of a fraction's last digit, of three at most. -/
def lastDigit (digits : List Char) : Int :=
  if digits.length = 1 then 100 else if digits.length = 2 then 10 else 0

/-- The milliseconds of a minute from which those of `iso` sort at or after a time's, after its
    minutes. -/
def secondsSortFrom (rest : List Char) : Int :=
  match takePart rest ':' 2 with
  | none => slack rest 60000
  | some (seconds, rest) =>
    match rest with
    | '.' :: fraction =>
      let digits := fraction.takeWhile Char.isDigit
      seconds * 1000 + value ((digits ++ ['0', '0']).take 3) +
        slack (fraction.drop digits.length) (lastDigit digits)
    | _ => seconds * 1000 + slack rest 1000

/-- The time of day from which those of `iso` sort at or after a time's, after its `T`. -/
def timeSortsFrom (text : List Char) : Option Int := do
  let (hours, rest) ← takeDigits 2 text
  let (minutes, rest) ← takePart rest ':' 2
  if hours = 24 then some 86400000
  else some ((hours * 60 + minutes) * 60000 + secondsSortFrom rest)

variable {text rest : List Char} {offset : Int}

/-! ## 2. Times of day -/

/-- A zone begins with `Z`, or with a sign. -/
theorem takeOffset_head (h : takeOffset rest = some (offset, [])) :
    rest = ['Z'] ∨ ∃ c after, rest = c :: after ∧ (c = '+' ∨ c = '-') := by
  unfold takeOffset at h
  split at h
  · cases h
    exact Or.inl rfl
  · rename_i c after _
    by_cases sign : c = '+' ∨ c = '-'
    · exact Or.inr ⟨c, after, rfl, sign⟩
    · rw [if_neg sign] at h
      cases h
  · cases h

theorem cons_not_lt {c d : Char} (after more : List Char) (before : d < c) :
    ¬ c :: after < d :: more := by
  rw [List.cons_lt_cons_iff]
  rintro (less | ⟨same, -⟩)
  · exact Char.lt_asymm before less
  · exact Char.ne_of_lt before same.symm

/-- What follows a unit in `iso`'s text, `c` and more, sorts before a zone just where that is `Z`. -/
theorem lt_zone (h : takeOffset rest = some (offset, [])) {c : Char} (after : List Char)
    (late : '-' < c) (early : c < 'Z') : c :: after < rest ↔ rest.head? = some 'Z' := by
  rcases takeOffset_head h with rfl | ⟨sign, more, rfl, rfl | rfl⟩
  · exact iff_of_true (List.cons_lt_cons_iff.2 (Or.inl early)) rfl
  · refine iff_of_false (cons_not_lt _ _ (Char.lt_trans (by decide) late)) ?_
    rw [List.head?_cons]
    decide
  · refine iff_of_false (cons_not_lt _ _ late) ?_
    rw [List.head?_cons]
    decide

theorem digit_early {c : Char} (h : c.isDigit = true) : '-' < c ∧ c < 'Z' := by
  have range := Char.isDigit_iff_toNat.1 h
  have zero : '0'.toNat = 48 := rfl
  have nine : '9'.toNat = 57 := rfl
  constructor
  · show '-'.toNat < c.toNat
    have dash : '-'.toNat = 45 := rfl
    omega
  · show c.toNat < 'Z'.toNat
    have z : 'Z'.toNat = 90 := rfl
    omega

/-- The digits of a numeral from a place on. -/
theorem numeral_split {width : Nat} {digits : List Char} (numeral : Numeral width digits) {some_ : Nat}
    (few : some_ ≤ width) : Numeral some_ (digits.take some_) ∧
      Numeral (width - some_) (digits.drop some_) ∧
      value digits = 10 ^ (width - some_) * value (digits.take some_) + value (digits.drop some_) := by
  have first : Numeral some_ (digits.take some_) :=
    ⟨by rw [List.length_take, numeral.length]; omega,
      fun c one => numeral.digits c (List.mem_of_mem_take one)⟩
  have last : Numeral (width - some_) (digits.drop some_) :=
    ⟨by rw [List.length_drop, numeral.length],
      fun c one => numeral.digits c (List.mem_of_mem_drop one)⟩
  refine ⟨first, last, ?_⟩
  conv_lhs => rw [← List.take_append_drop some_ digits]
  rw [value_append, last.length]

/-- The milliseconds of a digit, or of two. -/
theorem short_fraction {width : Nat} {digits : List Char} (numeral : Numeral width digits)
    (some_ : 0 < width) (short : width < 3) :
    value ((digits ++ ['0', '0']).take 3) = 10 ^ (3 - width) * value digits := by
  have length := numeral.length
  rw [List.take_append, List.take_of_length_le (by omega), length, value_append]
  have widths : width = 1 ∨ width = 2 := by omega
  rcases widths with rfl | rfl <;> rfl

theorem fraction_range {width : Nat} {digits : List Char} (numeral : Numeral width digits)
    (some_ : 0 < width) :
    (value ((digits ++ ['0', '0']).take 3) : Int) + lastDigit digits ≤ 1000 := by
  have length := numeral.length
  unfold lastDigit
  rw [length]
  rcases Nat.lt_or_ge width 3 with short | long
  · rw [short_fraction numeral some_ short]
    have few := numeral.value_lt
    have widths : width = 1 ∨ width = 2 := by omega
    rcases widths with rfl | rfl <;> norm_num at few ⊢ <;> omega
  · obtain ⟨first, -, -⟩ := numeral_split numeral long
    have few := first.value_lt
    rw [List.take_append_of_le_length (by omega), if_neg (c := width = 1) (by omega),
      if_neg (c := width = 2) (by omega)]
    omega

/-- **A fraction as `iso` writes it, and one as it was given**: in order as the milliseconds are. -/
theorem lt_fraction {width f : Nat} {digits : List Char} (numeral_ : Numeral width digits)
    (some_ : 0 < width) (zone : takeOffset rest = some (offset, [])) (small : f < 1000) :
    padded 3 f ++ ['Z'] < digits ++ rest ↔
      (f : Int) < value ((digits ++ ['0', '0']).take 3) + slack rest (lastDigit digits) := by
  obtain ⟨three, value_⟩ := numeral 3 f (by decide) small
  have length := numeral_.length
  rcases Nat.lt_or_ge width 3 with short | long
  · -- Fewer digits: those of `iso` that are left come before a `Z`, and after a sign.
    obtain ⟨first, last, split⟩ := numeral_split three (Nat.le_of_lt short)
    have few := last.value_lt
    have tail : (padded 3 f).drop width ++ ['Z'] < rest ↔ rest.head? = some 'Z' := by
      cases h : (padded 3 f).drop width with
      | nil =>
        rw [h] at last
        have none_ := last.length
        rw [List.length_nil] at none_
        omega
      | cons c after =>
        obtain ⟨late, early⟩ := digit_early (last.digits c (by rw [h]; exact List.mem_cons_self))
        exact lt_zone zone _ late early
    rw [← List.take_append_drop width (padded 3 f), List.append_assoc, first.append_lt numeral_, tail,
      short_fraction numeral_ some_ short]
    rw [value_] at split
    unfold slack lastDigit
    rw [length]
    have widths : width = 1 ∨ width = 2 := by omega
    by_cases z : rest.head? = some 'Z'
    · rw [if_pos z]
      rcases widths with rfl | rfl <;> simp only [z] <;> norm_num at split few ⊢ <;> omega
    · rw [if_neg z]
      rcases widths with rfl | rfl <;> simp only [z] <;> norm_num at split few ⊢ <;> omega
  · -- Three digits, or more: after three, `iso`'s `Z` is before nothing that may come.
    obtain ⟨first, last, -⟩ := numeral_split numeral_ long
    have tail : ¬ ['Z'] < digits.drop 3 ++ rest := by
      cases h : digits.drop 3 with
      | cons c after =>
        obtain ⟨-, early⟩ := digit_early (last.digits c (by rw [h]; exact List.mem_cons_self))
        exact cons_not_lt _ _ early
      | nil =>
        rcases takeOffset_head zone with rfl | ⟨sign, more, rfl, rfl | rfl⟩
        · decide
        · exact cons_not_lt _ _ (by decide)
        · exact cons_not_lt _ _ (by decide)
    have three' : (digits ++ ['0', '0']).take 3 = digits.take 3 := by
      rw [List.take_append_of_le_length (by omega)]
    have none_ : slack rest (lastDigit digits) = 0 := by
      unfold slack lastDigit
      rw [length, if_neg (c := width = 1) (by omega), if_neg (c := width = 2) (by omega), ite_self]
    rw [three', none_, Int.add_zero]
    conv_lhs => rw [← List.take_append_drop 3 digits, List.append_assoc]
    rw [three.append_lt first, value_]
    refine ⟨?_, fun less => Or.inl (by omega)⟩
    rintro (less | ⟨-, less⟩)
    · omega
    · exact absurd less tail

/-- What is taken of a fraction, if there is one. -/
theorem takeFraction_some {millis : Int} {zero : Bool}
    (h : takeFraction text = some (millis, zero, rest)) :
    (text = rest ∧ ∀ fraction, text ≠ '.' :: fraction) ∨
      ∃ fraction width, text = '.' :: fraction ∧ Numeral width (fraction.takeWhile Char.isDigit) ∧
        0 < width ∧ fraction.drop (fraction.takeWhile Char.isDigit).length = rest := by
  unfold takeFraction at h
  split at h
  · rename_i fraction
    dsimp only at h
    by_cases none_ : (fraction.takeWhile Char.isDigit).isEmpty = true
    · rw [if_pos none_] at h
      cases h
    · rw [if_neg none_] at h
      obtain ⟨taken, -, same⟩ := Option.map_eq_some_iff.1 h
      cases same
      refine Or.inr ⟨fraction, (fraction.takeWhile Char.isDigit).length, rfl, ⟨rfl, fun c one => ?_⟩,
        ?_, rfl⟩
      · exact List.mem_takeWhile_imp one
      · rw [List.isEmpty_iff] at none_
        exact List.length_pos_of_ne_nil none_
  · rename_i not_
    cases h
    exact Or.inl ⟨rfl, fun fraction same => not_ fraction same⟩

/-- What `iso` writes after the minutes. -/
def isoSeconds (time : Nat) : List Char :=
  ':' :: (padded 2 (time / 1000 % 60) ++ ('.' :: (padded 3 (time % 1000) ++ ['Z'])))

/-- Seconds as `iso` writes them, and as they were given: in order as the milliseconds. -/
theorem lt_secondsSortFrom
    (h : (takePart rest ':' 2 = none ∧ takeOffset rest = some (offset, [])) ∨
      ∃ seconds rest' millis zero rest'', takePart rest ':' 2 = some (seconds, rest') ∧
        seconds ≤ 59 ∧ takeFraction rest' = some (millis, zero, rest'') ∧
        takeOffset rest'' = some (offset, [])) :
    0 ≤ secondsSortFrom rest ∧ secondsSortFrom rest ≤ 60000 ∧
      ∀ s : Nat, isoSeconds s < rest ↔ ((s % 60000 : Nat) : Int) < secondsSortFrom rest := by
  have slack_range : ∀ (rest : List Char) (unit : Int), 0 ≤ unit → 0 ≤ slack rest unit ∧
      slack rest unit ≤ unit := by
    intro rest unit some_
    unfold slack
    split <;> omega
  unfold secondsSortFrom
  rcases h with ⟨none_, zone⟩ | ⟨seconds, rest', millis, zero, rest'', taken, few, fraction, zone⟩
  · rw [none_]
    dsimp only
    have range := slack_range rest 60000 (by decide)
    refine ⟨range.1, range.2, fun s => ?_⟩
    unfold isoSeconds slack
    rw [lt_zone zone _ (by decide) (by decide)]
    split
    · rename_i z
      exact iff_of_true z (by omega)
    · rename_i z
      exact iff_of_false z (by omega)
  · obtain ⟨digits, secondsText, rfl, rfl⟩ := takePart_some.1 taken
    rw [taken]
    dsimp only
    have seconds_ : ∀ s : Nat, isoSeconds s < ':' :: (digits ++ rest') ↔
        s / 1000 % 60 < value digits ∨ (s / 1000 % 60 = value digits ∧
          '.' :: (padded 3 (s % 1000) ++ ['Z']) < rest') := by
      intro s
      obtain ⟨two, value_⟩ := numeral 2 (s / 1000 % 60) (by decide) (by omega)
      unfold isoSeconds
      rw [List.cons_lt_cons_self, two.append_lt secondsText, value_]
    rcases takeFraction_some fraction with ⟨same, not_⟩ | ⟨fraction', width, rfl, given, some_, left⟩
    · -- No fraction: a zone, or its end, where `iso` writes a dot.
      subst same
      have range := slack_range rest' 1000 (by decide)
      split
      · rename_i fraction'
        exact absurd rfl (not_ fraction')
      · refine ⟨by omega, by omega, fun s => ?_⟩
        rw [seconds_, lt_zone zone _ (by decide) (by decide)]
        unfold slack
        split
        · rename_i z
          rw [z]
          simp only [and_true]
          omega
        · rename_i z
          simp only [z, and_false, or_false]
          omega
    · -- A fraction: its digits in place of `iso`'s three.
      have whole : fraction'.takeWhile Char.isDigit ++ rest'' = fraction' := by
        have halves := @List.takeWhile_append_dropWhile _ Char.isDigit fraction'
        generalize fraction'.takeWhile Char.isDigit = given at left halves ⊢
        rw [← halves, List.drop_left] at left
        rw [← left, halves]
      split
      · rename_i fraction_ same
        cases same
        rw [left]
        have most := fraction_range given some_
        have range := slack_range rest'' (lastDigit (fraction'.takeWhile Char.isDigit)) (by
          unfold lastDigit
          split <;> omega)
        have seconds__ : ∀ s : Nat, isoSeconds s < ':' :: (digits ++ '.' :: fraction') ↔
            s / 1000 % 60 < value digits ∨ (s / 1000 % 60 = value digits ∧
              ((s % 1000 : Nat) : Int) <
                value ((fraction'.takeWhile Char.isDigit ++ ['0', '0']).take 3) +
                slack rest'' (lastDigit (fraction'.takeWhile Char.isDigit))) := by
          intro s
          rw [seconds_, List.cons_lt_cons_self, ← lt_fraction given some_ zone (by omega), whole]
        generalize lastDigit (fraction'.takeWhile Char.isDigit) = last at *
        generalize value ((fraction'.takeWhile Char.isDigit ++ ['0', '0']).take 3) = millis at *
        refine ⟨by omega, by omega, fun s => ?_⟩
        rw [seconds__]
        omega
      · rename_i not_
        exact absurd rfl (not_ fraction')

/-- What is taken of a time of day that ends with its zone. -/
theorem takeTime_some {time : Int} (h : takeTime text = some (time, [])) :
    ∃ hours after minutes after' offset, takeDigits 2 text = some (hours, after) ∧
      takePart after ':' 2 = some (minutes, after') ∧ hours ≤ 24 ∧ minutes ≤ 59 ∧
      ((takePart after' ':' 2 = none ∧ takeOffset after' = some (offset, [])) ∨
        ∃ seconds rest millis zero rest', takePart after' ':' 2 = some (seconds, rest) ∧
          seconds ≤ 59 ∧ takeFraction rest = some (millis, zero, rest') ∧
          takeOffset rest' = some (offset, [])) := by
  obtain ⟨⟨hours, after⟩, hours_, h⟩ := Option.bind_eq_some_iff.1 h
  obtain ⟨⟨minutes, after'⟩, minutes_, h⟩ := Option.bind_eq_some_iff.1 h
  dsimp only at minutes_ h
  -- The rest, whatever the seconds: no more than a day's, and the zone.
  have last : ∀ {seconds millis : Int} {zero : Bool} {rest : List Char},
      (if (hours > 23 ∧ ¬ (hours = 24 ∧ minutes = 0 ∧ seconds = 0 ∧ zero)) ∨ minutes > 59 ∨
          seconds > 59 then none
        else (takeOffset rest).bind fun found =>
          some (((hours * 60 + minutes) * 60 + seconds) * 1000 + millis - found.1, found.2)) =
        some (time, []) →
      hours ≤ 24 ∧ minutes ≤ 59 ∧ seconds ≤ 59 ∧ ∃ offset, takeOffset rest = some (offset, []) := by
    intro seconds millis zero rest h
    split at h
    · cases h
    · rename_i within
      push Not at within
      obtain ⟨⟨offset, none_⟩, zone, same⟩ := Option.bind_eq_some_iff.1 h
      cases same
      have early : hours ≤ 24 := by
        by_contra late
        have ends := within.1 (by omega)
        omega
      exact ⟨early, within.2.1, within.2.2, offset, zone⟩
  cases sec : takePart after' ':' 2 with
  | none =>
    rw [sec] at h
    obtain ⟨early, few, -, offset, zone⟩ := last h
    exact ⟨hours, after, minutes, after', offset, hours_, minutes_, early, few, Or.inl ⟨sec, zone⟩⟩
  | some seconds =>
    obtain ⟨seconds, rest⟩ := seconds
    rw [sec] at h
    obtain ⟨⟨millis, zero, rest'⟩, fraction, h⟩ := Option.bind_eq_some_iff.1 h
    obtain ⟨early, few, few', offset, zone⟩ := last h
    exact ⟨hours, after, minutes, after', offset, hours_, minutes_, early, few,
      Or.inr ⟨seconds, rest, millis, zero, rest', sec, few', fraction, zone⟩⟩

/-- A time of day as `iso` writes it, and one as it was given: in order as the milliseconds are, to
    those its text sorts from. -/
theorem lt_timeSortsFrom {time : Int} (h : takeTime text = some (time, [])) :
    ∃ from_, timeSortsFrom text = some from_ ∧ 0 ≤ from_ ∧ from_ ≤ 86400000 ∧
      ∀ s : Nat, s < 86400000 → (isoTime s < text ↔ (s : Int) < from_) := by
  obtain ⟨hours, after, minutes, after', offset, hours_, minutes_, early, few, seconds⟩ :=
    takeTime_some h
  have some_ : timeSortsFrom text = if hours = 24 then some 86400000
      else some ((hours * 60 + minutes) * 60000 + secondsSortFrom after') := by
    unfold timeSortsFrom
    rw [hours_]
    show (takePart after ':' 2).bind _ = _
    rw [minutes_]
    rfl
  obtain ⟨first, last, order⟩ := lt_secondsSortFrom seconds
  obtain ⟨hoursText, hoursDigits, rfl, rfl⟩ := takeDigits_some.1 hours_
  obtain ⟨minutesText, minutesDigits, rfl, rfl⟩ := takePart_some.1 minutes_
  have lt : ∀ s : Nat, s < 86400000 → (isoTime s < hoursText ++ ':' :: (minutesText ++ after') ↔
      s / 3600000 < value hoursText ∨ (s / 3600000 = value hoursText ∧
        (s / 60000 % 60 < value minutesText ∨ (s / 60000 % 60 = value minutesText ∧
          ((s % 60000 : Nat) : Int) < secondsSortFrom after')))) := by
    intro s within
    obtain ⟨two, value_⟩ := numeral 2 (s / 3600000) (by decide) (by omega)
    obtain ⟨two', value_'⟩ := numeral 2 (s / 60000 % 60) (by decide) (by omega)
    unfold isoTime
    rw [two.append_lt hoursDigits, value_, List.cons_lt_cons_self, two'.append_lt minutesDigits,
      value_', ← order s]
    rfl
  rw [some_]
  split
  · rename_i ends
    refine ⟨86400000, rfl, by decide, by decide, fun s within => ?_⟩
    rw [lt s within]
    omega
  · rename_i not_
    refine ⟨_, rfl, by omega, by omega, fun s within => ?_⟩
    rw [lt s within]
    omega

/-! ## 3. Texts -/

/-- The first instant of a year whose text, after the year, sorts at or after what follows the year
    of a time: what is not there sorts first, and a `T` after a day there might have been. -/
def restSortsFrom (year : Int) (rest : List Char) : Option Time :=
  match takePart rest '-' 2 with
  | none => some (daysFromCivil (if rest.isEmpty then year else year + 1) 1 1 * msPerDay)
  | some (month, rest) =>
    match takePart rest '-' 2 with
    | none =>
      let (year, month) := if rest.isEmpty then (year, month) else monthAfter year month
      some (daysFromCivil year month 1 * msPerDay)
    | some (day, rest) =>
      if rest.isEmpty then some (daysFromCivil year month day * msPerDay)
      else (timeSortsFrom rest.tail).map (daysFromCivil year month day * msPerDay + ·)

/-- `sorts_from`: the instant from which those of its year have, as `iso` writes them, texts that
    sort at or after a time's. -/
def sortsFrom (text : String) : Option Time :=
  (takeYear text.toList).bind fun (year, rest) => restSortsFrom year rest

variable {year : Int}

theorem first_isDate {month : Int} (first : 1 ≤ month) (last : month ≤ 12) :
    IsDate year month 1 :=
  ⟨first, last, by decide, by have := daysInMonth_pos year month; omega⟩

/-- A text that ends after its date, or goes on with a time of day. -/
theorem timeOf_some {time : Int} (h : timeOf rest = some (time, [])) :
    rest = [] ∨ ∃ text, rest = 'T' :: text ∧ takeTime text = some (time, []) := by
  unfold timeOf at h
  split at h
  · exact Or.inr ⟨_, rfl, h⟩
  · cases h
    exact Or.inl rfl

/-- The year of an instant is its date's. -/
theorem lt_year (n : Time) : yearOf n < year ↔ n < daysFromCivil year 1 1 * msPerDay := by
  have order := @lt_instant n year 1 1 (first_isDate (by decide) (by decide)) 0 (by decide) (by decide)
  have first := (date_of n).month_first
  have first' := (date_of n).day_first
  rw [Int.add_zero] at order
  rw [order]
  unfold DateLt
  omega

theorem lt_month {month : Int} (first : 1 ≤ month) (last : month ≤ 12) (n : Time) :
    (yearOf n < year ∨ (yearOf n = year ∧ monthOf n < month)) ↔
      n < daysFromCivil year month 1 * msPerDay := by
  have order := @lt_instant n year month 1 (first_isDate first last) 0 (by decide) (by decide)
  have first' := (date_of n).day_first
  rw [Int.add_zero] at order
  rw [order]
  unfold DateLt
  omega

/-- A text's date as `iso` writes it, and one that was given: in order as their parts are. -/
theorem lt_isoDate (n : Time) {month : List Char} (two : Numeral 2 month) (after : List Char) :
    isoRest n < '-' :: (month ++ after) ↔ (monthOf n < value month ∨ (monthOf n = value month ∧
      '-' :: (padded 2 (dayOf n).toNat ++ 'T' :: isoTime (ofDay n)) < after)) := by
  have date := date_of n
  have first := date.month_first
  have last := date.month_last
  obtain ⟨two', value_⟩ := numeral 2 (monthOf n).toNat (by decide) (by omega)
  have less : (monthOf n).toNat < value month ↔ monthOf n < value month := by omega
  have same : (monthOf n).toNat = value month ↔ monthOf n = value month := by omega
  unfold isoRest
  rw [List.cons_lt_cons_self, two'.append_lt two, value_, less, same]

theorem lt_isoDay (n : Time) {day : List Char} (two : Numeral 2 day) (after : List Char) :
    '-' :: (padded 2 (dayOf n).toNat ++ 'T' :: isoTime (ofDay n)) < '-' :: (day ++ after) ↔
      (dayOf n < value day ∨ (dayOf n = value day ∧ 'T' :: isoTime (ofDay n) < after)) := by
  have date := date_of n
  have first := date.day_first
  have last := date.day_last.trans (daysInMonth_le _ _)
  obtain ⟨two', value_⟩ := numeral 2 (dayOf n).toNat (by decide) (by omega)
  have less : (dayOf n).toNat < value day ↔ dayOf n < value day := by omega
  have same : (dayOf n).toNat = value day ↔ dayOf n = value day := by omega
  rw [List.cons_lt_cons_self, two'.append_lt two, value_, less, same]

/-- **The texts of a year are in order as its instants are**, to the one a time's sorts from. -/
theorem lt_restSortsFrom {month day time : Int} {rest' rest'' : List Char}
    (hm : (takePart rest '-' 2).getD (1, rest) = (month, rest'))
    (hd : (takePart rest' '-' 2).getD (1, rest') = (day, rest'')) (date : IsDate year month day)
    (ht : timeOf rest'' = some (time, [])) :
    ∃ from_, restSortsFrom year rest = some from_ ∧
      ∀ n : Time, (yearOf n < year ∨ (yearOf n = year ∧ isoRest n < rest)) ↔ n < from_ := by
  unfold restSortsFrom
  cases part : takePart rest '-' 2 with
  | none =>
    refine ⟨_, rfl, fun n => ?_⟩
    rw [part] at hm
    cases hm
    rw [part] at hd
    cases hd
    rw [← lt_year]
    rcases timeOf_some ht with rfl | ⟨text, rfl, -⟩
    · have not_ : ¬ isoRest n < [] := List.not_lt_nil _
      simp only [not_, and_false, or_false]
      rfl
    · have before : isoRest n < 'T' :: text := List.cons_lt_cons_iff.2 (Or.inl (by decide))
      simp only [before, and_true]
      show _ ↔ yearOf n < year + 1
      omega
  | some found =>
    obtain ⟨month_, left⟩ := found
    rw [part] at hm
    cases hm
    obtain ⟨monthText, monthDigits, rfl, rfl⟩ := takePart_some.1 part
    dsimp only
    simp only [lt_isoDate _ monthDigits]
    cases part' : takePart rest' '-' 2 with
    | none =>
      refine ⟨_, rfl, fun n => ?_⟩
      rw [part'] at hd
      cases hd
      rcases timeOf_some ht with rfl | ⟨text, rfl, -⟩
      · have not_ : ∀ text : List Char, ¬ text < [] := List.not_lt_nil
        simp only [not_, and_false, or_false]
        exact lt_month date.month_first date.month_last n
      · have before : ∀ after, '-' :: after < 'T' :: text :=
          fun after => List.cons_lt_cons_iff.2 (Or.inl (by decide))
        simp only [before, and_true]
        have range := @monthAfter_range year (value monthText) date.month_first date.month_last
        have first := (date_of n).month_first
        have last := (date_of n).month_last
        show _ ↔ n < daysFromCivil (monthAfter year (value monthText)).1
          (monthAfter year (value monthText)).2 1 * msPerDay
        rw [← lt_month range.1 range.2]
        unfold monthAfter
        split <;> dsimp only <;> omega
    | some found =>
      obtain ⟨day_, left⟩ := found
      rw [part'] at hd
      cases hd
      obtain ⟨dayText, dayDigits, rfl, rfl⟩ := takePart_some.1 part'
      simp only [lt_isoDay _ dayDigits]
      rcases timeOf_some ht with rfl | ⟨text, rfl, taken⟩
      · have not_ : ∀ text : List Char, ¬ text < [] := List.not_lt_nil
        refine ⟨_, rfl, fun n => ?_⟩
        have order := @lt_instant n _ _ _ date 0 (by decide) (by decide)
        rw [Int.add_zero] at order
        simp only [not_, and_false, or_false]
        rw [order]
        unfold DateLt
        omega
      · obtain ⟨from_, some_, least, most, order⟩ := lt_timeSortsFrom taken
        refine ⟨daysFromCivil year (value monthText) (value dayText) * msPerDay + from_, ?_,
          fun n => ?_⟩
        · show (timeSortsFrom text).map _ = _
          rw [some_]
          rfl
        · rw [List.cons_lt_cons_self, order _ (ofDay_lt n), lt_instant date least most]
          unfold DateLt
          omega

/-! ## 4. Years -/

/-- How a time's year is written, in the order the texts sort. -/
def style (text : List Char) : Nat :=
  if text.head? = some '+' then 0 else if text.head? = some '-' then 1 else 2

/-- How `iso` writes a year. -/
def isoStyle (year : Int) : Nat := if year < 0 then 1 else if year ≤ 9999 then 2 else 0

theorem style_numeral {digits : List Char} {width : Nat} (h : Numeral width digits)
    (some_ : 0 < width) (after : List Char) : style (digits ++ after) = 2 := by
  cases digits with
  | nil =>
    rw [← h.length] at some_
    cases some_
  | cons c digits =>
    have digit := h.digits c List.mem_cons_self
    unfold style
    rw [if_neg, if_neg]
    · rintro ⟨⟩
      cases digit
    · rintro ⟨⟩
      cases digit

/-- A sign sorts before a digit. -/
theorem sign_lt {digits : List Char} {width : Nat} (h : Numeral width digits) (some_ : 0 < width)
    {c : Char} (sign : c ≤ '-') (after more : List Char) :
    c :: after < digits ++ more ∧ ¬ digits ++ more < c :: after := by
  cases digits with
  | nil =>
    rw [← h.length] at some_
    cases some_
  | cons d digits =>
    have late := lt_of_le_of_lt sign (digit_early (h.digits d List.mem_cons_self)).1
    exact ⟨List.cons_lt_cons_iff.2 (Or.inl late), cons_not_lt _ _ late⟩

/-- The three ways `iso` writes a year. -/
theorem isoYear_style (n : Int) :
    (n < 0 ∧ isoYear n = '-' :: padded 6 n.natAbs ∧ isoStyle n = 1) ∨
      ((0 ≤ n ∧ n ≤ 9999) ∧ isoYear n = padded 4 n.toNat ∧ isoStyle n = 2) ∨
      (9999 < n ∧ isoYear n = '+' :: padded 6 n.natAbs ∧ isoStyle n = 0) := by
  unfold isoYear isoStyle
  rcases Int.lt_or_le n 0 with before | not_
  · exact Or.inl ⟨before, by rw [if_neg (by omega), if_pos before], if_pos before⟩
  · rcases Int.lt_or_le 9999 n with after | four
    · exact Or.inr (Or.inr ⟨after, by rw [if_neg (by omega), if_neg (by omega)],
        by rw [if_neg (by omega), if_neg (by omega)]⟩)
    · exact Or.inr (Or.inl ⟨⟨not_, four⟩, if_pos ⟨not_, four⟩, by rw [if_neg (by omega), if_pos four]⟩)

/-- **A year as `iso` writes it, and one as it was given**: where both are written alike, they are in
    order as they are -- but with a minus the later is the first. -/
theorem lt_isoYear {n : Int} (fits : n.natAbs < 10 ^ 6) (taken : takeYear text = some (year, rest))
    (after : List Char) : isoYear n ++ after < text ↔
      isoStyle n < style text ∨ (isoStyle n = style text ∧
        ((if n < 0 then year < n else n < year) ∨ (n = year ∧ after < rest))) := by
  obtain ⟨six, six_⟩ := numeral 6 n.natAbs (by decide) fits
  have plus : '+' ≤ '-' := by decide
  have signs : ∀ after more : List Char, '+' :: after < '-' :: more ∧ ¬ '-' :: after < '+' :: more :=
    fun after more => ⟨List.cons_lt_cons_iff.2 (Or.inl (by decide)), cons_not_lt _ _ (by decide)⟩
  have plus_ : ∀ after : List Char, style ('+' :: after) = 0 := fun _ => rfl
  have minus_ : ∀ after : List Char, style ('-' :: after) = 1 := fun _ => rfl
  obtain ⟨digits, ⟨rfl, given, rfl⟩ | ⟨rfl, given, rfl⟩ | ⟨rfl, given, rfl, -⟩⟩ := takeYear_some.1 taken
  · rw [style_numeral given (by decide)]
    rcases isoYear_style n with ⟨before, text_, style_⟩ | ⟨four, text_, style_⟩ | ⟨late, text_, style_⟩ <;>
      rw [text_, style_]
    · exact iff_of_true (sign_lt given (by decide) (le_refl _) _ _).1 (Or.inl (by decide))
    · obtain ⟨four_, value_⟩ := numeral 4 n.toNat (by decide) (by omega)
      have less : n.toNat < value digits ↔ n < value digits := by omega
      have same : n.toNat = value digits ↔ n = value digits := by omega
      rw [four_.append_lt given, value_, less, same, if_neg (by omega)]
      simp only [true_and, lt_irrefl, false_or]
    · exact iff_of_true (sign_lt given (by decide) plus _ _).1 (Or.inl (by decide))
  · rw [plus_]
    rcases isoYear_style n with ⟨before, text_, style_⟩ | ⟨four, text_, style_⟩ | ⟨late, text_, style_⟩ <;>
      rw [text_, style_]
    · exact iff_of_false (signs _ _).2 (by simp)
    · obtain ⟨four_, -⟩ := numeral 4 n.toNat (by decide) (by omega)
      exact iff_of_false (sign_lt four_ (by decide) plus _ _).2 (by simp)
    · have less : n.natAbs < value digits ↔ n < value digits := by omega
      have same : n.natAbs = value digits ↔ n = value digits := by omega
      rw [List.cons_append, List.cons_lt_cons_self, six.append_lt given, six_, less, same,
        if_neg (by omega)]
      simp only [true_and, lt_irrefl, false_or]
  · rw [minus_]
    rcases isoYear_style n with ⟨before, text_, style_⟩ | ⟨four, text_, style_⟩ | ⟨late, text_, style_⟩ <;>
      rw [text_, style_]
    · have less : n.natAbs < value digits ↔ -(value digits : Int) < n := by omega
      have same : n.natAbs = value digits ↔ n = -(value digits : Int) := by omega
      rw [List.cons_append, List.cons_lt_cons_self, six.append_lt given, six_, less, same,
        if_pos before]
      simp only [true_and, lt_irrefl, false_or]
    · obtain ⟨four_, -⟩ := numeral 4 n.toNat (by decide) (by omega)
      exact iff_of_false (sign_lt four_ (by decide) (le_refl _) _ _).2 (by simp)
    · exact iff_of_true (signs _ _).1 (Or.inl (by decide))

/-- **A text of `iso`, and any that `parse` reads.** -/
theorem lt_text {now : Time} {until_ : String} (fits : now.natAbs ≤ lastMs.natAbs)
    (taken : takeYear until_.toList = some (year, rest)) : iso now < until_ ↔
      isoStyle (yearOf now) < style until_.toList ∨ (isoStyle (yearOf now) = style until_.toList ∧
        ((if yearOf now < 0 then year < yearOf now else yearOf now < year) ∨
          (yearOf now = year ∧ isoRest now < rest))) := by
  rw [String.lt_iff_toList_lt, iso_toList]
  exact lt_isoYear (year_bound fits) taken (isoRest now)

end ConsensFlow
