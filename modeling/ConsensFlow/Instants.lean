/-
  File:      ConsensFlow/Instants.lean
  Subject:   AN INSTANT AS `iso` WRITES IT: its date and its time of day, digit by digit, and read back.

  * `yearOf`, `monthOf`, `dayOf`, `ofDay` -- the parts of an instant; `instant_eq`, `lt_instant`;
  * `takeDigits_numeral`, `takePart_some` -- what `parse` takes off a text;
  * **`parse_iso`** -- what `iso` writes is read back.
-/
import ConsensFlow.Dates
import ConsensFlow.Lib.Digits

namespace ConsensFlow

open Lib.Digits

/-! ## 1. The parts of an instant -/

def yearOf (ms : Int) : Int := (civilFromDays (ms / msPerDay)).1
def monthOf (ms : Int) : Int := (civilFromDays (ms / msPerDay)).2.1
def dayOf (ms : Int) : Int := (civilFromDays (ms / msPerDay)).2.2

/-- The milliseconds since midnight. -/
def ofDay (ms : Int) : Nat := (ms % msPerDay).toNat

theorem msPerDay_eq : msPerDay = 86400000 := rfl

theorem ofDay_lt (ms : Int) : ofDay ms < 86400000 := by
  unfold ofDay
  rw [msPerDay_eq]
  omega

/-- An instant's date is a date. -/
theorem date_of (ms : Int) : IsDate (yearOf ms) (monthOf ms) (dayOf ms) :=
  (civilFromDays_spec _).1

/-- An instant is the midnight of its date, and its time of day. -/
theorem instant_eq (ms : Int) :
    ms = daysFromCivil (yearOf ms) (monthOf ms) (dayOf ms) * msPerDay + ofDay ms := by
  unfold yearOf monthOf dayOf ofDay
  rw [(civilFromDays_spec _).2, msPerDay_eq]
  omega

variable {ms : Int} {year month day : Int}

/-- An instant is before a time of a date's where its own date is, or is that one, and its time of day
    is before. -/
theorem lt_instant (date : IsDate year month day) {time : Int} (some_ : 0 ≤ time)
    (within : time ≤ 86400000) :
    ms < daysFromCivil year month day * msPerDay + time ↔
      DateLt (yearOf ms) (monthOf ms) (dayOf ms) year month day ∨
        (yearOf ms = year ∧ monthOf ms = month ∧ dayOf ms = day ∧ (ofDay ms : Int) < time) := by
  have few := ofDay_lt ms
  have order := days_lt_iff (date_of ms) date
  have order' := days_lt_iff date (date_of ms)
  have whole := instant_eq ms
  rw [msPerDay_eq] at whole ⊢
  rcases Int.lt_trichotomy (daysFromCivil (yearOf ms) (monthOf ms) (dayOf ms))
    (daysFromCivil year month day) with earlier | same | later
  · exact iff_of_true (by omega) (Or.inl (order.1 earlier))
  · have not_ := mt order.2 (by omega)
    have not' := mt order'.2 (by omega)
    unfold DateLt at not_ not' ⊢
    omega
  · have less := order'.1 later
    unfold DateLt at less ⊢
    omega

theorem daysInMonth_le (year month : Int) : daysInMonth year month ≤ 31 := by
  unfold daysInMonth
  repeat' split
  all_goals omega

/-- The years of the instants a date holds. -/
theorem year_bound (fits : ms.natAbs ≤ lastMs.natAbs) : (yearOf ms).natAbs < 10 ^ 6 := by
  have last : lastMs = 8640000000000000 := rfl
  have whole := instant_eq ms
  have few := ofDay_lt ms
  have date := date_of ms
  have month := marchMonth_range date.month_first date.month_last
  have first := date.day_first
  have day : dayOf ms ≤ 31 := date.day_last.trans (daysInMonth_le _ _)
  rw [daysFromCivil_eq date.month_first, msPerDay_eq] at whole
  have march : marchYear (yearOf ms) (monthOf ms) = yearOf ms ∨
      marchYear (yearOf ms) (monthOf ms) = yearOf ms - 1 := by
    unfold marchYear
    split
    · exact Or.inr rfl
    · exact Or.inl rfl
  unfold yearDays at whole
  omega

/-! ## 2. Written -/

theorem padded_eq (width n : Nat) : padded width n = Lib.Digits.padded width n := by
  unfold padded Lib.Digits.padded
  rw [show (toString n).toList = Nat.toDigits 10 n from Nat.toList_repr]

/-- The time of day as `iso` writes it, after its `T`. -/
def isoTime (time : Nat) : List Char :=
  padded 2 (time / 3600000) ++ (':' :: (padded 2 (time / 60000 % 60) ++
    (':' :: (padded 2 (time / 1000 % 60) ++ ('.' :: (padded 3 (time % 1000) ++ ['Z']))))))

/-- What `iso` writes after the year. -/
def isoRest (ms : Int) : List Char :=
  '-' :: (padded 2 (monthOf ms).toNat ++ ('-' :: (padded 2 (dayOf ms).toNat ++
    ('T' :: isoTime (ofDay ms)))))

/-- The time of day as `iso` writes it, `x` after its milliseconds. -/
def isoTimeTo (time : Nat) (x : List Char) : List Char :=
  padded 2 (time / 3600000) ++ (':' :: (padded 2 (time / 60000 % 60) ++
    (':' :: (padded 2 (time / 1000 % 60) ++ ('.' :: (padded 3 (time % 1000) ++ x))))))

/-- An instant as `iso` writes it, `x` after its milliseconds. -/
def isoTo (ms : Int) (x : List Char) : List Char :=
  isoYear (yearOf ms) ++ ('-' :: (padded 2 (monthOf ms).toNat ++ ('-' ::
    (padded 2 (dayOf ms).toNat ++ ('T' :: isoTimeTo (ofDay ms) x)))))

theorem iso_toList (ms : Int) : (iso ms).toList = isoYear (yearOf ms) ++ isoRest ms := by
  unfold iso isoRest isoTime yearOf monthOf dayOf ofDay
  rw [show ms.ediv msPerDay = ms / msPerDay from rfl, show ms.emod msPerDay = ms % msPerDay from rfl]
  rcases civilFromDays (ms / msPerDay) with ⟨year, month, day⟩
  simp only [String.toList_ofList, List.cons_append, List.append_assoc]

theorem numeral (width n : Nat) (some_ : 0 < width) (fits : n < 10 ^ width) :
    Numeral width (padded width n) ∧ value (padded width n) = n := by
  rw [padded_eq]
  exact ⟨padded_numeral some_ fits, padded_value width n⟩

/-! ## 3. Read -/

variable {width : Nat} {digits text rest : List Char} {n : Int} {c : Char}

/-- What `take_digits` takes: a numeral, and its number. -/
theorem takeDigits_some : takeDigits width text = some (n, rest) ↔
    ∃ digits, Numeral width digits ∧ text = digits ++ rest ∧ n = value digits := by
  have fold : ∀ (cs : List Char) (m : Nat),
      cs.foldl (fun (n : Int) c => n * 10 + ((c.toNat - '0'.toNat : Nat) : Int)) m =
        (Nat.ofDigitChars 10 cs m : Int) := by
    intro cs
    induction cs with
    | nil => exact fun m => rfl
    | cons c cs ih =>
      intro m
      rw [List.foldl_cons, Nat.ofDigitChars_cons, ← ih]
      congr 1
      push_cast
      omega
  unfold takeDigits
  dsimp only
  constructor
  · intro h
    by_cases fits : (text.take width).length = width && (text.take width).all Char.isDigit
    · rw [if_pos fits] at h
      cases h
      rw [Bool.and_eq_true, decide_eq_true_eq, List.all_eq_true] at fits
      exact ⟨text.take width, ⟨fits.1, fits.2⟩, (List.take_append_drop _ _).symm, fold _ 0⟩
    · rw [if_neg fits] at h
      cases h
  · rintro ⟨digits, numeral, rfl, rfl⟩
    have take : (digits ++ rest).take width = digits := by
      rw [← numeral.length, List.take_left]
    have drop : (digits ++ rest).drop width = rest := by
      rw [← numeral.length, List.drop_left]
    rw [take, drop, if_pos]
    · rw [show (0 : Int) = ((0 : Nat) : Int) from rfl, fold]
      rfl
    · rw [Bool.and_eq_true, decide_eq_true_eq, List.all_eq_true]
      exact ⟨numeral.length, numeral.digits⟩

/-- What `take_part` takes: a separator, then a numeral. -/
theorem takePart_some : takePart text c width = some (n, rest) ↔
    ∃ digits, Numeral width digits ∧ text = c :: (digits ++ rest) ∧ n = value digits := by
  unfold takePart
  cases text with
  | nil =>
    refine iff_of_false (fun h => ?_) ?_
    · cases h
    · rintro ⟨digits, _, same, _⟩
      cases same
  | cons c' after =>
    dsimp only
    by_cases here : c' = c
    · rw [if_pos here, takeDigits_some, here]
      simp only [List.cons.injEq, true_and]
    · rw [if_neg here]
      refine iff_of_false (fun h => ?_) ?_
      · cases h
      · rintro ⟨digits, _, same, _⟩
        exact here (List.cons.inj same).1

/-- What `take_year` takes: four digits, or a sign and six. -/
theorem takeYear_some : takeYear text = some (n, rest) ↔
    ∃ digits, (text = digits ++ rest ∧ Numeral 4 digits ∧ n = value digits) ∨
      (text = '+' :: (digits ++ rest) ∧ Numeral 6 digits ∧ n = value digits) ∨
      (text = '-' :: (digits ++ rest) ∧ Numeral 6 digits ∧ n = -(value digits : Int) ∧ n ≠ 0) := by
  have signed : ∀ digits, Numeral 4 digits → ∀ c, c.isDigit = false → ∀ after,
      c :: after ≠ digits ++ rest := by
    intro digits numeral c not_ after same
    cases digits with
    | nil => cases numeral.length
    | cons c' digits =>
      rw [(List.cons.inj same).1, numeral.digits c' List.mem_cons_self] at not_
      cases not_
  unfold takeYear
  split
  · rename_i after
    constructor
    · intro h
      obtain ⟨⟨year, left⟩, taken, h⟩ := Option.bind_eq_some_iff.1 h
      obtain ⟨digits, numeral, rfl, rfl⟩ := takeDigits_some.1 taken
      dsimp only at h
      by_cases none_ : (value digits : Int) = 0
      · rw [if_pos none_] at h
        cases h
      · rw [if_neg none_] at h
        cases h
        exact ⟨digits, Or.inr (Or.inr ⟨rfl, numeral, rfl, Int.neg_ne_zero.2 none_⟩)⟩
    · rintro ⟨digits, ⟨same, numeral, -⟩ | ⟨same, -⟩ | ⟨same, numeral, rfl, some_⟩⟩
      · exact absurd same (signed digits numeral '-' rfl after)
      · cases same
      · rw [(List.cons.inj same).2, takeDigits_some.2 ⟨digits, numeral, rfl, rfl⟩]
        exact if_neg (Int.neg_ne_zero.1 some_)
  · rename_i after
    rw [takeDigits_some]
    constructor
    · rintro ⟨digits, numeral, rfl, rfl⟩
      exact ⟨digits, Or.inr (Or.inl ⟨rfl, numeral, rfl⟩)⟩
    · rintro ⟨digits, ⟨same, numeral, -⟩ | ⟨same, numeral, value_⟩ | ⟨same, -⟩⟩
      · exact absurd same (signed digits numeral '+' rfl after)
      · exact ⟨digits, numeral, (List.cons.inj same).2, value_⟩
      · cases same
  · rename_i not_minus not_plus
    rw [takeDigits_some]
    constructor
    · rintro ⟨digits, numeral, same, value_⟩
      exact ⟨digits, Or.inl ⟨same, numeral, value_⟩⟩
    · rintro ⟨digits, ⟨same, numeral, value_⟩ | ⟨same, -⟩ | ⟨same, -⟩⟩
      · exact ⟨digits, numeral, same, value_⟩
      · exact absurd same (not_plus _)
      · exact absurd same (not_minus _)

/-- The year as `iso` writes it, read. -/
theorem takeYear_iso {year : Int} (bound : year.natAbs < 10 ^ 6) (rest : List Char) :
    takeYear (isoYear year ++ rest) = some (year, rest) := by
  unfold isoYear
  by_cases four : 0 ≤ year ∧ year ≤ 9999
  · obtain ⟨digits, value_⟩ := numeral 4 year.toNat (by decide) (by omega)
    rw [if_pos four]
    exact takeYear_some.2 ⟨_, Or.inl ⟨rfl, digits, by omega⟩⟩
  · obtain ⟨digits, value_⟩ := numeral 6 year.natAbs (by decide) bound
    rw [if_neg four]
    by_cases before : year < 0
    · rw [if_pos before]
      exact takeYear_some.2 ⟨_, Or.inr (Or.inr ⟨rfl, digits, by omega, by omega⟩)⟩
    · rw [if_neg before]
      exact takeYear_some.2 ⟨_, Or.inr (Or.inl ⟨rfl, digits, by omega⟩)⟩

/-- What is taken of a fraction: its first three digits, zeros after them, and what follows the last. -/
theorem takeFraction_digits {width : Nat} (numeral : Numeral width digits) (some_ : 0 < width)
    (ends : rest.head?.all (fun c => !c.isDigit) = true) :
    takeFraction ('.' :: (digits ++ rest)) =
      some ((value ((digits ++ ['0', '0']).take 3) : Int), digits.all (· == '0'), rest) := by
  have taken : (digits ++ rest).takeWhile Char.isDigit = digits := by
    rw [List.takeWhile_append_of_pos numeral.digits]
    cases rest with
    | nil => exact List.append_nil _
    | cons c rest =>
      rw [List.head?_cons, Option.all_some, Bool.not_eq_true'] at ends
      rw [List.takeWhile_cons_of_neg (by rw [ends]; exact Bool.false_ne_true), List.append_nil]
  have filled : digits.isEmpty = false := by
    cases digits with
    | nil =>
      rw [← numeral.length] at some_
      cases some_
    | cons c digits => rfl
  have three : Numeral 3 ((digits ++ ['0', '0']).take 3) := by
    have length := numeral.length
    refine ⟨?_, fun c one => ?_⟩
    · rw [List.length_take, List.length_append]
      show min 3 (digits.length + 2) = 3
      omega
    · rcases List.mem_append.1 (List.mem_of_mem_take one) with one | one
      · exact numeral.digits c one
      · have zero : c = '0' := List.eq_of_mem_replicate (n := 2) one
        rw [zero]
        rfl
  have split : digits ++ ['0', '0'] =
      (digits ++ ['0', '0']).take 3 ++ (digits ++ ['0', '0']).drop 3 := (List.take_append_drop _ _).symm
  show (if ((digits ++ rest).takeWhile Char.isDigit).isEmpty = true then none
    else (takeDigits 3 ((digits ++ rest).takeWhile Char.isDigit ++ ['0', '0'])).map fun found =>
      (found.1, ((digits ++ rest).takeWhile Char.isDigit).all (· == '0'),
        (digits ++ rest).drop ((digits ++ rest).takeWhile Char.isDigit).length)) = _
  rw [taken, filled, if_neg Bool.false_ne_true, takeDigits_some.2 ⟨_, three, split, rfl⟩,
    List.drop_left]
  rfl

/-- A time of day as `iso` writes it, with more digits of its fraction, read to the millisecond. -/
theorem takeTime_isoTo {time : Nat} {finer : List Char} (within : time < 86400000)
    (digits : ∀ c ∈ finer, c.isDigit = true) :
    takeTime (isoTimeTo time (finer ++ ['Z'])) = some ((time : Int), []) := by
  obtain ⟨hours, hours_⟩ := numeral 2 (time / 3600000) (by decide) (by omega)
  obtain ⟨minutes, minutes_⟩ := numeral 2 (time / 60000 % 60) (by decide) (by omega)
  obtain ⟨seconds, seconds_⟩ := numeral 2 (time / 1000 % 60) (by decide) (by omega)
  obtain ⟨millis, millis_⟩ := numeral 3 (time % 1000) (by decide) (by omega)
  have whole : Numeral (3 + finer.length) (padded 3 (time % 1000) ++ finer) := by
    refine ⟨by rw [List.length_append, millis.length], fun c one => ?_⟩
    rcases List.mem_append.1 one with one | one
    · exact millis.digits c one
    · exact digits c one
  have fraction : takeFraction ('.' :: (padded 3 (time % 1000) ++ (finer ++ ['Z']))) =
      some (((time % 1000 : Nat) : Int), (padded 3 (time % 1000) ++ finer).all (· == '0'), ['Z']) := by
    have taken := @takeFraction_digits (padded 3 (time % 1000) ++ finer) ['Z'] _ whole (by omega) rfl
    have three : (padded 3 (time % 1000) ++ finer ++ ['0', '0']).take 3 = padded 3 (time % 1000) := by
      rw [List.append_assoc]
      exact List.take_left' millis.length
    rw [← List.append_assoc, taken, three, millis_]
  unfold takeTime isoTimeTo
  rw [takeDigits_some.2 ⟨_, hours, rfl, rfl⟩]
  dsimp only [bind, Option.bind]
  rw [takePart_some.2 ⟨_, minutes, rfl, rfl⟩]
  dsimp only
  rw [takePart_some.2 ⟨_, seconds, rfl, rfl⟩]
  dsimp only
  rw [fraction, hours_, minutes_, seconds_]
  dsimp only [Option.map, Option.getD]
  rw [if_neg (by omega)]
  rw [show takeOffset ['Z'] = some (0, []) from rfl]
  dsimp only
  have whole : (((time / 3600000 : Nat) : Int) * 60 + (time / 60000 % 60 : Nat)) * 60 +
      (time / 1000 % 60 : Nat) = (time / 1000 : Nat) := by omega
  rw [whole]
  have all : ((time / 1000 : Nat) : Int) * 1000 + (time % 1000 : Nat) - 0 = time := by omega
  rw [all]

/-- The time of day of a text, if it has one, and the rest. -/
def timeOf (rest : List Char) : Option (Int × List Char) :=
  match rest with
  | 'T' :: time => takeTime time
  | _ => some (0, rest)

theorem timeOf_none {rest : List Char} (none_ : ∀ time, rest = 'T' :: time → False) :
    timeOf rest = some (0, rest) := by
  unfold timeOf
  split
  · exact (none_ _ rfl).elim
  · rfl

/-- A year takes four characters of a text at least, and a month after it three more. -/
theorem takeYear_length (h : takeYear text = some (n, rest)) : rest.length + 4 ≤ text.length := by
  obtain ⟨digits, ⟨rfl, numeral, -⟩ | ⟨rfl, numeral, -⟩ | ⟨rfl, numeral, -⟩⟩ := takeYear_some.1 h <;>
    simp only [List.length_cons, List.length_append, numeral.length] <;> omega

theorem takePart_length (h : takePart text c width = some (n, rest)) :
    rest.length + width + 1 = text.length := by
  obtain ⟨digits, numeral, rfl, -⟩ := takePart_some.1 h
  rw [List.length_cons, List.length_append, numeral.length]
  omega

/-- A day is looked for wherever a month was taken: where none was, there is no day either. -/
theorem day_taken {year month : Int} {rest rest' : List Char}
    (taken : takeYear text = some (year, rest))
    (hm : (takePart rest '-' 2).getD (1, rest) = (month, rest')) :
    (if text.length - rest'.length > 4 then (takePart rest' '-' 2).getD (1, rest') else (1, rest')) =
      (takePart rest' '-' 2).getD (1, rest') := by
  have year_ := takeYear_length taken
  cases part : takePart rest '-' 2 with
  | none =>
    rw [part] at hm
    cases hm
    rw [part]
    exact ite_self _
  | some found =>
    obtain ⟨month', left⟩ := found
    have month_ := takePart_length part
    rw [part] at hm
    cases hm
    rw [if_pos (by omega)]

/-- What `parse` reads: a year, a month and a day if they are there, a time if it is there, and no
    more. -/
theorem parseTime_some {text : String} : parseTime text = some ms ↔
    ∃ year rest month rest' day rest'' time, takeYear text.toList = some (year, rest) ∧
      (takePart rest '-' 2).getD (1, rest) = (month, rest') ∧
      (takePart rest' '-' 2).getD (1, rest') = (day, rest'') ∧ IsDate year month day ∧
      timeOf rest'' = some (time, []) ∧ ms = daysFromCivil year month day * msPerDay + time ∧
      ms.natAbs ≤ lastMs.natAbs := by
  unfold parseTime
  constructor
  · intro h
    obtain ⟨⟨year, rest⟩, taken, h⟩ := Option.bind_eq_some_iff.1 h
    dsimp only at h
    cases hm : (takePart rest '-' 2).getD (1, rest) with
    | mk month rest' =>
      rw [hm] at h
      dsimp only at h
      have day_ := day_taken taken hm
      rw [day_] at h
      cases hd : (takePart rest' '-' 2).getD (1, rest') with
      | mk day rest'' =>
        rw [hd] at h
        dsimp only at h
        by_cases no : ¬ (1 ≤ month ∧ month ≤ 12) ∨ day < 1 ∨ day > daysInMonth year month
        · rw [if_pos no] at h
          cases h
        · rw [if_neg no] at h
          obtain ⟨⟨time, left⟩, ht, h⟩ : ∃ found, timeOf rest'' = some found ∧
              (if (found.2.isEmpty && decide ((daysFromCivil year month day * msPerDay +
                found.1).natAbs ≤ lastMs.natAbs)) = true
              then some (daysFromCivil year month day * msPerDay + found.1) else none) = some ms := by
            split at h
            · exact Option.bind_eq_some_iff.1 h
            · rename_i no_time
              exact ⟨_, timeOf_none no_time, h⟩
          dsimp only at h
          by_cases ends : (left.isEmpty && decide ((daysFromCivil year month day * msPerDay +
              time).natAbs ≤ lastMs.natAbs)) = true
          · rw [if_pos ends] at h
            cases h
            rw [Bool.and_eq_true, List.isEmpty_iff, decide_eq_true_eq] at ends
            obtain ⟨rfl, fits⟩ := ends
            exact ⟨year, rest, month, rest', day, rest'', time, taken, hm, hd,
              ⟨by omega, by omega, by omega, by omega⟩, ht, rfl, fits⟩
          · rw [if_neg ends] at h
            cases h
  · rintro ⟨year, rest, month, rest', day, rest'', time, taken, hm, hd, date, ht, rfl, fits⟩
    have first := date.month_first
    have last := date.month_last
    have first' := date.day_first
    have last' := date.day_last
    refine Option.bind_eq_some_iff.2 ⟨(year, rest), taken, ?_⟩
    dsimp only
    rw [hm]
    dsimp only
    rw [day_taken taken hm, hd]
    dsimp only
    rw [if_neg (by omega)]
    have ends : (([] : List Char).isEmpty && decide ((daysFromCivil year month day * msPerDay +
        time).natAbs ≤ lastMs.natAbs)) = true := by
      rw [Bool.and_eq_true, decide_eq_true_eq]
      exact ⟨rfl, fits⟩
    split
    · exact Option.bind_eq_some_iff.2 ⟨(time, []), ht, if_pos ends⟩
    · rename_i no_time
      rw [timeOf_none no_time] at ht
      cases ht
      exact if_pos ends

/-- What `iso` writes is read back, with more digits of its fraction too. -/
theorem parse_isoTo {finer : List Char} (fits : ms.natAbs ≤ lastMs.natAbs)
    (digits : ∀ c ∈ finer, c.isDigit = true) :
    parseTime (String.ofList (isoTo ms (finer ++ ['Z']))) = some ms := by
  have date := date_of ms
  have few := ofDay_lt ms
  have last : dayOf ms ≤ 31 := date.day_last.trans (daysInMonth_le _ _)
  have first := date.month_first
  have first' := date.day_first
  have last' := date.month_last
  obtain ⟨month, month_⟩ := numeral 2 (monthOf ms).toNat (by decide) (by omega)
  obtain ⟨day, day_⟩ := numeral 2 (dayOf ms).toNat (by decide) (by omega)
  have monthTaken (x : List Char) :
      takePart ('-' :: (padded 2 (monthOf ms).toNat ++ x)) '-' 2 = some (monthOf ms, x) :=
    takePart_some.2 ⟨_, month, rfl, by omega⟩
  have dayTaken (x : List Char) :
      takePart ('-' :: (padded 2 (dayOf ms).toNat ++ x)) '-' 2 = some (dayOf ms, x) :=
    takePart_some.2 ⟨_, day, rfl, by omega⟩
  refine parseTime_some.2 ⟨yearOf ms, '-' :: (padded 2 (monthOf ms).toNat ++ ('-' ::
      (padded 2 (dayOf ms).toNat ++ ('T' :: isoTimeTo (ofDay ms) (finer ++ ['Z']))))), monthOf ms,
    '-' :: (padded 2 (dayOf ms).toNat ++ ('T' :: isoTimeTo (ofDay ms) (finer ++ ['Z']))), dayOf ms,
    'T' :: isoTimeTo (ofDay ms) (finer ++ ['Z']), ofDay ms, ?_, ?_, ?_, date, ?_, instant_eq ms,
    fits⟩
  · rw [String.toList_ofList]
    exact takeYear_iso (year_bound fits) _
  · rw [monthTaken]
    rfl
  · rw [dayTaken]
    rfl
  · exact takeTime_isoTo few digits

theorem iso_eq (ms : Int) : iso ms = String.ofList (isoTo ms ['Z']) := by
  rw [← String.toList_inj, iso_toList, String.toList_ofList]
  rfl

/-- **What `iso` writes is read back.** -/
theorem parse_iso (fits : ms.natAbs ≤ lastMs.natAbs) : parseTime (iso ms) = some ms := by
  rw [iso_eq]
  exact @parse_isoTo ms [] fits fun c one => absurd one List.not_mem_nil

end ConsensFlow
