/-
  File:      ConsensFlow/Dates.lean
  Subject:   THE CALENDAR OF `time.rs` IS IN ORDER: days are counted along its dates, with none left out
             and none counted twice.

  * `daysFromCivil_eq` -- the day of a date, in whole years, months and days;
  * `month_after` -- a month is as long as its last day says;
  * **`days_lt_iff`** -- dates are before one another as their days are;
  * **`civilFromDays_spec`** -- the date of a day is a date, and its day is that day.
-/
import ConsensFlow.Clock

namespace ConsensFlow

/-! ## 1. Years and months -/

/-- A date of the calendar. -/
structure IsDate (year month day : Int) : Prop where
  month_first : 1 ≤ month
  month_last : month ≤ 12
  day_first : 1 ≤ day
  day_last : day ≤ daysInMonth year month

/-- The days of the years before a year that begins in March. -/
def yearDays (year : Int) : Int := 365 * year + year / 4 - year / 100 + year / 400

/-- The year that begins in March, and the months since. -/
def marchYear (year month : Int) : Int := if month ≤ 2 then year - 1 else year

def marchMonth (month : Int) : Int := if month ≤ 2 then month + 9 else month - 3

variable {year month day year' month' day' : Int}

theorem marchMonth_range (first : 1 ≤ month) (last : month ≤ 12) :
    0 ≤ marchMonth month ∧ marchMonth month ≤ 11 := by
  unfold marchMonth
  split <;> omega

/-- The day of a date: of its years, its months and its days. -/
theorem daysFromCivil_eq (first : 1 ≤ month) (day : Int) :
    daysFromCivil year month day =
      yearDays (marchYear year month) + (153 * marchMonth month + 2) / 5 + day - 1 - 719468 := by
  have march : month + (if month > 2 then -3 else 9) = marchMonth month := by
    unfold marchMonth
    split <;> split <;> omega
  have some_ : 0 ≤ marchMonth month := by
    unfold marchMonth
    split <;> omega
  unfold daysFromCivil
  dsimp only
  rw [march, show (if month ≤ 2 then year - 1 else year) = marchYear year month from rfl]
  generalize marchYear year month = y
  have era : y.ediv 400 = y / 400 := rfl
  rw [era, Int.tdiv_eq_ediv_of_nonneg (by omega), Int.tdiv_eq_ediv_of_nonneg (by omega),
    Int.tdiv_eq_ediv_of_nonneg (by omega)]
  unfold yearDays
  omega

theorem isLeap_iff (year : Int) :
    isLeap year = true ↔ (year % 4 = 0 ∧ year % 100 ≠ 0) ∨ year % 400 = 0 := by
  have zero : ∀ n : Int, year.tmod n = 0 ↔ year % n = 0 := fun n => by
    rw [← Int.dvd_iff_tmod_eq_zero, Int.dvd_iff_emod_eq_zero]
  unfold isLeap
  rw [Bool.or_eq_true, Bool.and_eq_true, beq_iff_eq, bne_iff_ne, beq_iff_eq, zero 4, zero 400, Ne,
    zero 100]

/-- A year has 365 days, or 366 where its February has 29: that is the last of the year before,
    counted from March. -/
theorem yearDays_succ (year : Int) :
    yearDays year - yearDays (year - 1) = if isLeap year then 366 else 365 := by
  have leap := isLeap_iff year
  unfold yearDays
  split
  · rename_i yes
    have cases := leap.1 yes
    omega
  · rename_i no
    have cases := mt leap.2 no
    omega

/-! ## 2. Dates in order -/

/-- The month after one. -/
def monthAfter (year month : Int) : Int × Int :=
  if month = 12 then (year + 1, 1) else (year, month + 1)

theorem monthAfter_range (first : 1 ≤ month) (last : month ≤ 12) :
    1 ≤ (monthAfter year month).2 ∧ (monthAfter year month).2 ≤ 12 := by
  unfold monthAfter
  split <;> dsimp only <;> omega

/-- **A month is as long as its last day says.** -/
theorem month_after (first : 1 ≤ month) (last : month ≤ 12) :
    daysFromCivil year month 1 + daysInMonth year month =
      daysFromCivil (monthAfter year month).1 (monthAfter year month).2 1 := by
  have leap := yearDays_succ year
  rw [daysFromCivil_eq first, daysFromCivil_eq (monthAfter_range first last).1]
  have months : month = 1 ∨ month = 2 ∨ month = 3 ∨ month = 4 ∨ month = 5 ∨ month = 6 ∨ month = 7 ∨
      month = 8 ∨ month = 9 ∨ month = 10 ∨ month = 11 ∨ month = 12 := by omega
  rcases months with rfl | rfl | rfl | rfl | rfl | rfl | rfl | rfl | rfl | rfl | rfl | rfl <;>
    cases h : isLeap year <;> rw [h] at leap <;>
    simp [monthAfter, daysInMonth, marchYear, marchMonth, h] at leap ⊢ <;> omega

/-- The months before the first of the year 0, up to a month. -/
def monthIndex (year month : Int) : Int := 12 * year + (month - 1)

theorem monthAfter_index (year month : Int) :
    monthIndex (monthAfter year month).1 (monthAfter year month).2 = monthIndex year month + 1 := by
  unfold monthIndex monthAfter
  split <;> dsimp only <;> omega

theorem daysInMonth_pos (year month : Int) : 28 ≤ daysInMonth year month := by
  unfold daysInMonth
  repeat' split
  all_goals omega

/-- The first of a later month is past the whole of an earlier one. -/
theorem months_lt (first : 1 ≤ month) (last : month ≤ 12) (first' : 1 ≤ month') (last' : month' ≤ 12)
    (later : monthIndex year month < monthIndex year' month') :
    daysFromCivil year month 1 + daysInMonth year month ≤ daysFromCivil year' month' 1 := by
  obtain ⟨n, gap⟩ : ∃ n : Nat, monthIndex year' month' = monthIndex year month + 1 + n :=
    ⟨(monthIndex year' month' - monthIndex year month - 1).toNat, by omega⟩
  induction n generalizing year month with
  | zero =>
    rw [month_after first last]
    have same : monthAfter year month = (year', month') := by
      have index := monthAfter_index year month
      have range := @monthAfter_range year month first last
      unfold monthIndex at index gap
      refine Prod.ext ?_ ?_ <;> dsimp only <;> omega
    rw [same]
  | succ n ih =>
    have index := monthAfter_index year month
    have range := @monthAfter_range year month first last
    have rest := @ih (monthAfter year month).1 (monthAfter year month).2 range.1 range.2 (by omega)
      (by omega)
    have some_ := daysInMonth_pos (monthAfter year month).1 (monthAfter year month).2
    rw [month_after first last]
    omega

/-- The day of a date, from the first of its month. -/
theorem days_of_month (first : 1 ≤ month) (day : Int) :
    daysFromCivil year month day = daysFromCivil year month 1 + (day - 1) := by
  rw [daysFromCivil_eq first, daysFromCivil_eq first]
  omega

/-- Dates one before the other. -/
def DateLt (year month day year' month' day' : Int) : Prop :=
  year < year' ∨ (year = year' ∧ (month < month' ∨ (month = month' ∧ day < day')))

theorem days_lt (date : IsDate year month day) (date' : IsDate year' month' day')
    (h : DateLt year month day year' month' day') :
    daysFromCivil year month day < daysFromCivil year' month' day' := by
  have here := @days_of_month year month date.month_first day
  have there := @days_of_month year' month' date'.month_first day'
  have last := date.day_last
  have first := date'.day_first
  rcases h with earlier | ⟨rfl, earlier | ⟨rfl, earlier⟩⟩
  · have most := date.month_last
    have least := date'.month_first
    have later : monthIndex year month < monthIndex year' month' := by
      unfold monthIndex
      omega
    have months := months_lt date.month_first most least date'.month_last later
    omega
  · have later : monthIndex year month < monthIndex year month' := by
      unfold monthIndex
      omega
    have months := months_lt date.month_first date.month_last date'.month_first date'.month_last later
    omega
  · omega

/-- **Dates are before one another as their days are.** -/
theorem days_lt_iff (date : IsDate year month day) (date' : IsDate year' month' day') :
    daysFromCivil year month day < daysFromCivil year' month' day' ↔
      DateLt year month day year' month' day' := by
  refine ⟨fun h => ?_, days_lt date date'⟩
  by_contra not_
  have rest : DateLt year' month' day' year month day ∨
      (year' = year ∧ month' = month ∧ day' = day) := by
    unfold DateLt at not_ ⊢
    omega
  rcases rest with later | ⟨rfl, rfl, rfl⟩
  · have more := days_lt date' date later
    omega
  · omega

/-! ## 3. The date of a day -/

/-- The year a day of the era is in, counted from March: its first day is that day or before, and the
    next year's is after. -/
theorem cycle_year {ofEra : Int} (some_ : 0 ≤ ofEra) (few : ofEra < 146097) :
    let ofCycle := (ofEra - ofEra / 1460 + ofEra / 36524 - ofEra / 146096) / 365
    0 ≤ ofCycle ∧ ofCycle < 400 ∧ yearDays ofCycle ≤ ofEra ∧ ofEra < yearDays (ofCycle + 1) := by
  intro ofCycle
  unfold yearDays
  rcases Int.lt_or_le ofEra 146096 with inside | last
  · have none_ : ofEra / 146096 = 0 := by omega
    obtain ⟨century, hc⟩ : ∃ century, ofEra / 36524 = century := ⟨_, rfl⟩
    obtain ⟨rest, hr⟩ : ∃ rest, ofEra - 36524 * century = rest := ⟨_, rfl⟩
    obtain ⟨leaps, he⟩ : ∃ leaps, ofEra / 1460 - 25 * century = leaps := ⟨_, rfl⟩
    obtain ⟨year, hk⟩ : ∃ year, (rest - leaps) / 365 = year := ⟨_, rfl⟩
    have same : ofCycle = 100 * century + year := by
      show (ofEra - ofEra / 1460 + ofEra / 36524 - ofEra / 146096) / 365 = _
      omega
    have centuries : 0 ≤ century ∧ century ≤ 3 := by omega
    have leaps_ : 1460 * leaps ≤ 24 * century + rest ∧ 24 * century + rest < 1460 * (leaps + 1) := by
      omega
    have years : 365 * year ≤ rest - leaps ∧ rest - leaps < 365 * (year + 1) := by omega
    have within : 0 ≤ rest ∧ rest < 36524 := by omega
    have hundred : 0 ≤ year ∧ year < 100 := by omega
    have lower : 365 * year + year / 4 ≤ rest := by omega
    have upper : rest < 365 * (year + 1) + (year + 1) / 4 := by omega
    have quarters : (100 * century + year) / 4 = 25 * century + year / 4 := by omega
    have hundreds : (100 * century + year) / 100 = century := by omega
    have none' : (100 * century + year) / 400 = 0 := by omega
    have quarters' : (100 * century + year + 1) / 4 = 25 * century + (year + 1) / 4 := by omega
    have hundreds' : (100 * century + year + 1) / 100 = century + (year + 1) / 100 := by omega
    rw [same, quarters, hundreds, none', quarters', hundreds']
    refine ⟨by omega, by omega, by omega, ?_⟩
    rcases Int.lt_or_le year 99 with short | whole
    · have small : (year + 1) / 100 = 0 := by omega
      omega
    · have ninety : year = 99 := by omega
      omega
  · have whole : ofEra = 146096 := by omega
    have same : ofCycle = 399 := by
      show (ofEra - ofEra / 1460 + ofEra / 36524 - ofEra / 146096) / 365 = 399
      rw [whole]
      decide
    rw [same, whole]
    decide

theorem year_length (year : Int) : yearDays (year + 1) - yearDays year =
    if isLeap (year + 1) then 366 else 365 := by
  have length := yearDays_succ (year + 1)
  rw [Int.add_sub_cancel] at length
  exact length

/-- The parts of a day, as `civil_from_days` takes it apart: its era, the year in it from March, and the
    day of that year. -/
theorem day_parts (days : Int) : ∃ era cycle ofYear : Int,
    days + 719468 = 146097 * era + yearDays cycle + ofYear ∧ 0 ≤ cycle ∧ cycle < 400 ∧ 0 ≤ ofYear ∧
      ofYear < yearDays (cycle + 1) - yearDays cycle ∧
      civilFromDays days =
        (cycle + era * 400 + (if (5 * ofYear + 2) / 153 < 10 then 0 else 1),
          (if (5 * ofYear + 2) / 153 < 10 then (5 * ofYear + 2) / 153 + 3
            else (5 * ofYear + 2) / 153 - 9),
          ofYear - (153 * ((5 * ofYear + 2) / 153) + 2) / 5 + 1) := by
  obtain ⟨era, he⟩ : ∃ era, (days + 719468) / 146097 = era := ⟨_, rfl⟩
  obtain ⟨ofEra, ho⟩ : ∃ ofEra, days + 719468 - era * 146097 = ofEra := ⟨_, rfl⟩
  have some_ : 0 ≤ ofEra := by omega
  have few : ofEra < 146097 := by omega
  obtain ⟨least, most, begins, ends⟩ := cycle_year some_ few
  obtain ⟨cycle, hc⟩ : ∃ cycle, (ofEra - ofEra / 1460 + ofEra / 36524 - ofEra / 146096) / 365 =
    cycle := ⟨_, rfl⟩
  rw [hc] at least most begins ends
  have whole : 365 * cycle + cycle / 4 - cycle / 100 = yearDays cycle := by
    unfold yearDays
    omega
  refine ⟨era, cycle, ofEra - yearDays cycle, by omega, least, most, by omega, by omega, ?_⟩
  unfold civilFromDays
  dsimp only
  have era_ : (days + 719468).ediv 146097 = era := he
  rw [era_, ho]
  have numerator : 0 ≤ ofEra - ofEra / 1460 + ofEra / 36524 - ofEra / 146096 := by omega
  rw [Int.tdiv_eq_ediv_of_nonneg some_, Int.tdiv_eq_ediv_of_nonneg some_,
    Int.tdiv_eq_ediv_of_nonneg some_, Int.tdiv_eq_ediv_of_nonneg numerator, hc,
    Int.tdiv_eq_ediv_of_nonneg least, Int.tdiv_eq_ediv_of_nonneg least, whole,
    Int.tdiv_eq_ediv_of_nonneg (by omega)]
  rw [Int.tdiv_eq_ediv_of_nonneg (by omega)]
  have year := year_length cycle
  by_cases early : (5 * (ofEra - yearDays cycle) + 2) / 153 < 10
  · rw [if_pos early, if_pos early, if_neg (by omega)]
  · rw [if_neg early, if_neg early, if_pos (by omega)]

/-- **The date of a day is a date, and its day is that day.** -/
theorem civilFromDays_spec (days : Int) :
    IsDate (civilFromDays days).1 (civilFromDays days).2.1 (civilFromDays days).2.2 ∧
      daysFromCivil (civilFromDays days).1 (civilFromDays days).2.1 (civilFromDays days).2.2 = days := by
  obtain ⟨era, cycle, ofYear, whole, least, most, some_, few, parts⟩ := day_parts days
  have length := year_length cycle
  have short : ofYear < 366 := by
    split at length <;> omega
  have leap := isLeap_iff (cycle + 1)
  have leap' := isLeap_iff (cycle + era * 400 + 1)
  obtain ⟨shifted, hs⟩ : ∃ shifted, (5 * ofYear + 2) / 153 = shifted := ⟨_, rfl⟩
  have range : 0 ≤ shifted ∧ shifted ≤ 11 := by omega
  have eras : yearDays (cycle + era * 400) = yearDays cycle + 146097 * era := by
    unfold yearDays
    omega
  rw [parts, hs]
  dsimp only
  by_cases early : shifted < 10
  · rw [if_pos early, if_pos early]
    have march : marchYear (cycle + era * 400 + 0) (shifted + 3) = cycle + era * 400 := by
      unfold marchYear
      rw [if_neg (by omega), Int.add_zero]
    have months : marchMonth (shifted + 3) = shifted := by
      unfold marchMonth
      rw [if_neg (by omega), Int.add_sub_cancel]
    refine ⟨⟨by omega, by omega, by omega, ?_⟩, ?_⟩
    · have lengths : shifted = 0 ∨ shifted = 1 ∨ shifted = 2 ∨ shifted = 3 ∨ shifted = 4 ∨
          shifted = 5 ∨ shifted = 6 ∨ shifted = 7 ∨ shifted = 8 ∨ shifted = 9 := by omega
      rcases lengths with rfl | rfl | rfl | rfl | rfl | rfl | rfl | rfl | rfl | rfl <;>
        simp [daysInMonth] <;> omega
    · rw [daysFromCivil_eq (by omega), march, months, eras]
      omega
  · rw [if_neg early, if_neg early]
    have march : marchYear (cycle + era * 400 + 1) (shifted - 9) = cycle + era * 400 := by
      unfold marchYear
      rw [if_pos (by omega), Int.add_sub_cancel]
    have months : marchMonth (shifted - 9) = shifted := by
      unfold marchMonth
      rw [if_pos (by omega), Int.sub_add_cancel]
    refine ⟨⟨by omega, by omega, by omega, ?_⟩, ?_⟩
    · have lengths : shifted = 10 ∨ shifted = 11 := by omega
      rcases lengths with rfl | rfl
      · simp [daysInMonth]
        omega
      · -- The last day of a March year is February's, the 29th where the next year is a leap year.
        have february : daysInMonth (cycle + era * 400 + 1) (11 - 9) =
            if isLeap (cycle + era * 400 + 1) then 29 else 28 := rfl
        rw [february]
        cases hl : isLeap (cycle + 1) with
        | true =>
          have same : isLeap (cycle + era * 400 + 1) = true := by
            have this_ := leap.1 hl
            exact leap'.2 (by omega)
          rw [same, if_pos rfl]
          omega
        | false =>
          rw [hl, if_neg Bool.false_ne_true] at length
          split <;> omega
    · rw [daysFromCivil_eq (by omega), march, months, eras]
      omega

/-- **A date is the date of its day.** -/
theorem civilFromDays_days (date : IsDate year month day) :
    civilFromDays (daysFromCivil year month day) = (year, month, day) := by
  obtain ⟨date', same⟩ := civilFromDays_spec (daysFromCivil year month day)
  have not_lt := mt (days_lt_iff date' date).2 (by omega)
  have not_gt := mt (days_lt_iff date date').2 (by omega)
  unfold DateLt at not_lt not_gt
  refine Prod.ext ?_ (Prod.ext ?_ ?_) <;> dsimp only <;> omega

end ConsensFlow
