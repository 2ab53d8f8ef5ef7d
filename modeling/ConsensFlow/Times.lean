/-
  File:      ConsensFlow/Times.lean
  Subject:   TIMES READ BACK, AND IN ORDER AS TEXTS (`cf-base`: `time.rs`: `iso`, `parse`,
             `canonical`).

  * `lt_isoTo` -- instants of the years of four digits sort as their texts;
  * `finerOf`, `canonicalTime_some` -- what a store keeps of a time past its milliseconds;
  * **`times_read_back`** -- what `iso` writes is read back and sorts as its instant; what
    `canonical` keeps is its own canonical form, names the same instant, and sorts as it does where
    the instants differ.
-/
import ConsensFlow.Instants
import ConsensFlow.Lib.Apart

namespace ConsensFlow

open Lib.Text Lib.Digits

variable {ms a b : Int} {x y : List Char}

/-! ## 1. In order -/

/-- An instant of a year `iso` writes in four digits. -/
def InYears (ms : Int) : Prop := 0 ≤ yearOf ms ∧ yearOf ms ≤ 9999

/-- Texts that begin with numbers of one width sort by them first, and then by what follows. -/
theorem lt_padded {width n m : Nat} (some_ : 0 < width) (fits : n < 10 ^ width)
    (fits' : m < 10 ^ width) (x y : List Char) :
    padded width n ++ x < padded width m ++ y ↔ n < m ∨ (n = m ∧ x < y) := by
  obtain ⟨numeral_, value_⟩ := numeral width n some_ fits
  obtain ⟨numeral', value'⟩ := numeral width m some_ fits'
  rw [numeral_.append_lt numeral', value_, value']

theorem lt_cons (c : Char) (x y : List Char) : c :: x < c :: y ↔ x < y := by
  rw [List.cons_lt_cons_iff]
  exact ⟨fun h => h.elim (fun less => absurd less (Char.lt_irrefl c)) And.right,
    fun h => .inr ⟨rfl, h⟩⟩

/-- Times of day sort as they are. -/
theorem lt_isoTimeTo {s t : Nat} (hs : s < 86400000) (ht : t < 86400000) :
    isoTimeTo s x < isoTimeTo t y ↔ s < t ∨ (s = t ∧ x < y) := by
  unfold isoTimeTo
  rw [lt_padded (by decide) (by omega) (by omega), lt_cons,
    lt_padded (by decide) (by omega) (by omega), lt_cons,
    lt_padded (by decide) (by omega) (by omega), lt_cons,
    lt_padded (by decide) (by omega) (by omega)]
  constructor
  · rintro (h | ⟨h, h' | ⟨h', h'' | ⟨h'', m | ⟨m, rest⟩⟩⟩⟩)
    · omega
    · omega
    · omega
    · omega
    · exact .inr ⟨by omega, rest⟩
  · rintro (h | ⟨rfl, rest⟩)
    · by_cases rest : x < y
      · simp only [rest, and_true]
        omega
      · simp only [rest, and_false, or_false]
        omega
    · exact .inr ⟨rfl, .inr ⟨rfl, .inr ⟨rfl, .inr ⟨rfl, rest⟩⟩⟩⟩

/-- **Instants sort as their texts**, in the years of four digits, whatever follows the
    milliseconds of each where they are one. -/
theorem lt_isoTo (ha : InYears a) (hb : InYears b) :
    isoTo a x < isoTo b y ↔ a < b ∨ (a = b ∧ x < y) := by
  have date := date_of a
  have date' := date_of b
  have day : dayOf a ≤ 31 := date.day_last.trans (daysInMonth_le _ _)
  have day' : dayOf b ≤ 31 := date'.day_last.trans (daysInMonth_le _ _)
  have month := date.month_last
  have month' := date'.month_last
  have first := date.month_first
  have first' := date'.month_first
  have low := date.day_first
  have low' := date'.day_first
  have few := ofDay_lt a
  have few' := ofDay_lt b
  have before : a < b ↔ DateLt (yearOf a) (monthOf a) (dayOf a) (yearOf b) (monthOf b) (dayOf b) ∨
      (yearOf a = yearOf b ∧ monthOf a = monthOf b ∧ dayOf a = dayOf b ∧
        (ofDay a : Int) < ofDay b) := by
    conv_lhs => rw [instant_eq b]
    exact lt_instant date' (by omega) (by omega)
  have same : a = b ↔ yearOf a = yearOf b ∧ monthOf a = monthOf b ∧ dayOf a = dayOf b ∧
      ofDay a = ofDay b := by
    constructor
    · rintro rfl
      exact ⟨rfl, rfl, rfl, rfl⟩
    · rintro ⟨year, month, day, time⟩
      rw [instant_eq a, instant_eq b, year, month, day, time]
  obtain ⟨ha, ha'⟩ := ha
  obtain ⟨hb, hb'⟩ := hb
  unfold isoTo isoYear
  rw [if_pos ⟨ha, ha'⟩, if_pos ⟨hb, hb'⟩, lt_padded (by decide) (by omega) (by omega), lt_cons,
    lt_padded (by decide) (by omega) (by omega), lt_cons,
    lt_padded (by decide) (by omega) (by omega), lt_cons, lt_isoTimeTo few few', before, same]
  unfold DateLt
  by_cases rest : x < y
  · simp only [rest, and_true]
    omega
  · simp only [rest, and_false, or_false]
    omega

theorem iso_lt (ha : InYears a) (hb : InYears b) : iso a < iso b ↔ a < b := by
  rw [iso_eq, iso_eq, String.lt_iff, String.toList_ofList, String.toList_ofList, lt_isoTo ha hb]
  exact ⟨fun h => h.elim id fun same => absurd same.2 (List.lt_irrefl _), .inl⟩

/-! ## 2. As a store keeps a time -/

/-- The digits of a text's fraction past the milliseconds that a store keeps. -/
def finerOf (text : List Char) : List Char :=
  match splitOnce ['.'] text with
  | none => []
  | some (_, fraction) =>
    (((((fraction.takeWhile Char.isDigit).take 9).drop 3).reverse).dropWhile (· == '0')).reverse

/-- Digits a store keeps past the milliseconds: to the nanosecond, and no zero at their end. -/
structure Finer (finer : List Char) : Prop where
  digits : ∀ c ∈ finer, c.isDigit = true
  few : finer.length ≤ 6
  last : finer.getLast? ≠ some '0'

theorem isoTo_append (ms : Int) (x y : List Char) : isoTo ms (x ++ y) = isoTo ms x ++ y := by
  unfold isoTo isoTimeTo
  simp only [List.append_assoc, List.cons_append]

/-- **What a store keeps of a time**: its instant, as `iso` writes it, with those digits. -/
theorem canonicalTime_some {text kept : String} : canonicalTime text = some kept ↔
    ∃ ms, parseTime text = some ms ∧
      kept = String.ofList (isoTo ms (finerOf text.toList ++ ['Z'])) := by
  have form (ms : Int) : (if (finerOf text.toList).isEmpty then (iso ms).toList
      else (iso ms).toList.dropLast ++ finerOf text.toList ++ ['Z']) =
      isoTo ms (finerOf text.toList ++ ['Z']) := by
    have written : (iso ms).toList = isoTo ms [] ++ ['Z'] := by
      rw [iso_eq, String.toList_ofList, ← isoTo_append, List.nil_append]
    rw [written, List.dropLast_concat, isoTo_append]
    cases finer : finerOf text.toList with
    | nil => rfl
    | cons c more =>
      rw [if_neg (by simp), ← isoTo_append, List.nil_append]
  unfold canonicalTime
  constructor
  · intro h
    obtain ⟨ms, reads, h⟩ := Option.bind_eq_some_iff.1 h
    exact ⟨ms, reads, by rw [← form]; exact (Option.some.inj h).symm⟩
  · rintro ⟨ms, reads, rfl⟩
    refine Option.bind_eq_some_iff.2 ⟨ms, reads, ?_⟩
    rw [← form]
    rfl

theorem getLast?_trimmed (cs : List Char) :
    ((cs.reverse.dropWhile (· == '0')).reverse).getLast? ≠ some '0' := by
  rw [List.getLast?_reverse]
  intro zero
  have stop := List.head?_dropWhile_not (· == '0') cs.reverse
  rw [zero] at stop
  exact absurd stop (by decide)

theorem finerOf_finer (text : List Char) : Finer (finerOf text) := by
  unfold finerOf
  split
  · exact ⟨fun c one => absurd one List.not_mem_nil, Nat.zero_le _, by decide⟩
  · rename_i fraction _
    refine ⟨fun c one => ?_, ?_, getLast?_trimmed _⟩
    · have one := (List.dropWhile_sublist _).mem (List.mem_reverse.1 one)
      have one := List.mem_of_mem_take (List.mem_of_mem_drop (List.mem_reverse.1 one))
      exact List.mem_takeWhile_imp one
    · have short := (List.dropWhile_sublist (· == '0') (l :=
        (((fraction.takeWhile Char.isDigit).take 9).drop 3).reverse)).length_le
      rw [List.length_reverse] at short ⊢
      rw [List.length_drop, List.length_take] at short
      omega

/-- An instant as `iso` writes it, before the point of its milliseconds. -/
def isoAhead (ms : Int) : List Char :=
  isoYear (yearOf ms) ++ ('-' :: (padded 2 (monthOf ms).toNat ++ ('-' ::
    (padded 2 (dayOf ms).toNat ++ ('T' :: (padded 2 (ofDay ms / 3600000) ++
      (':' :: (padded 2 (ofDay ms / 60000 % 60) ++ (':' :: padded 2 (ofDay ms / 1000 % 60))))))))))

theorem isoTo_ahead (ms : Int) (x : List Char) :
    isoTo ms x = isoAhead ms ++ (['.'] ++ (padded 3 (ofDay ms % 1000) ++ x)) := by
  unfold isoTo isoTimeTo isoAhead
  simp only [List.append_assoc, List.cons_append, List.nil_append]

/-- No point is before it. -/
theorem isoAhead_out (year : (yearOf ms).natAbs < 10 ^ 6) : '.' ∉ isoAhead ms := by
  have date := date_of ms
  have few := ofDay_lt ms
  have day : dayOf ms ≤ 31 := date.day_last.trans (daysInMonth_le _ _)
  have month := date.month_last
  have digits (width n : Nat) (some_ : 0 < width) (fits : n < 10 ^ width) :
      '.' ∉ padded width n := by
    intro one
    exact absurd ((numeral width n some_ fits).1.digits _ one) (by decide)
  have year_ : '.' ∉ isoYear (yearOf ms) := by
    unfold isoYear
    split
    · exact digits _ _ (by decide) (by omega)
    · intro one
      rcases List.mem_cons.1 one with same | one
      · split at same <;> cases same
      · exact digits _ _ (by decide) (by omega) one
  have sign (c : Char) (other : '.' ≠ c) {cs : List Char} (out : '.' ∉ cs) : '.' ∉ c :: cs :=
    fun one => (List.mem_cons.1 one).elim other out
  have both {cs ds : List Char} (out : '.' ∉ cs) (out' : '.' ∉ ds) : '.' ∉ cs ++ ds :=
    fun one => (List.mem_append.1 one).elim out out'
  exact both year_ (sign '-' (by decide) (both (digits _ _ (by decide) (by omega))
    (sign '-' (by decide) (both (digits _ _ (by decide) (by omega))
      (sign 'T' (by decide) (both (digits _ _ (by decide) (by omega))
        (sign ':' (by decide) (both (digits _ _ (by decide) (by omega))
          (sign ':' (by decide) (digits _ _ (by decide) (by omega)))))))))))

/-- Its digits are read off what a store keeps. -/
theorem finerOf_isoTo {finer : List Char} (kept : Finer finer)
    (year : (yearOf ms).natAbs < 10 ^ 6) :
    finerOf (isoTo ms (finer ++ ['Z'])) = finer := by
  obtain ⟨millis, -⟩ := numeral 3 (ofDay ms % 1000) (by decide) (by omega)
  have taken : (padded 3 (ofDay ms % 1000) ++ (finer ++ ['Z'])).takeWhile Char.isDigit =
      padded 3 (ofDay ms % 1000) ++ finer := by
    rw [List.takeWhile_append_of_pos millis.digits, List.takeWhile_append_of_pos kept.digits,
      List.takeWhile_cons_of_neg (by decide), List.append_nil]
  have nine : (padded 3 (ofDay ms % 1000) ++ finer).take 9 =
      padded 3 (ofDay ms % 1000) ++ finer := by
    refine List.take_of_length_le ?_
    have few := kept.few
    rw [List.length_append, millis.length]
    omega
  have trimmed : (finer.reverse.dropWhile (· == '0')).reverse = finer := by
    have last := kept.last
    rw [← List.head?_reverse] at last
    cases back : finer.reverse with
    | nil => rw [List.dropWhile_nil, ← back, List.reverse_reverse]
    | cons c more =>
      rw [back, List.head?_cons] at last
      have other : ¬(c == '0') = true := fun same => last (congrArg some (beq_iff_eq.1 same))
      rw [List.dropWhile_cons_of_neg (p := (· == '0')) other, ← back, List.reverse_reverse]
  rw [finerOf, isoTo_ahead, splitOnce_head rfl (isoAhead_out year)]
  dsimp only
  rw [taken, nine, List.drop_left' millis.length, trimmed]

/-! ## 3. Read back -/

/-- What a store keeps is its own canonical form, and names the same instant. -/
theorem canonical_again {text kept : String} (h : canonicalTime text = some kept) :
    canonicalTime kept = some kept ∧ parseTime kept = parseTime text := by
  obtain ⟨ms, reads, rfl⟩ := canonicalTime_some.1 h
  obtain ⟨-, -, -, -, -, -, -, -, -, -, -, -, -, fits⟩ := parseTime_some.1 reads
  have finer := finerOf_finer text.toList
  have again := parse_isoTo fits finer.digits
  refine ⟨canonicalTime_some.2 ⟨ms, again, ?_⟩, again.trans reads.symm⟩
  rw [String.toList_ofList, finerOf_isoTo finer (year_bound fits)]

/-- What a store keeps sorts as the instants do, and where they are one, as the digits past the
    milliseconds do, each ended by its `Z`. -/
theorem canonical_lt {text text' kept kept' : String} (h : canonicalTime text = some kept)
    (h' : canonicalTime text' = some kept') (reads : parseTime kept = some a)
    (reads' : parseTime kept' = some b) (ha : InYears a) (hb : InYears b) :
    kept < kept' ↔ a < b ∨
      (a = b ∧ finerOf kept.toList ++ ['Z'] < finerOf kept'.toList ++ ['Z']) := by
  have form {text kept : String} {ms : Int} (h : canonicalTime text = some kept)
      (reads : parseTime kept = some ms) :
      kept.toList = isoTo ms (finerOf kept.toList ++ ['Z']) := by
    obtain ⟨ms', reads', same⟩ := canonicalTime_some.1 (canonical_again h).1
    cases reads.symm.trans reads'
    conv_lhs => rw [same]
    exact String.toList_ofList
  rw [String.lt_iff, form h reads, form h' reads', lt_isoTo ha hb, ← form h reads, ← form h' reads']

/-- **Times read back and keep their order.** What `iso` writes is read back, and sorts as its
    instant in the years of four digits; what a store keeps of a time is its own canonical form and
    names the same instant, and in those years it sorts as the instants do where they differ, and
    where they are one, as the digits kept past the milliseconds, each ended by its `Z`. -/
theorem times_read_back :
    (∀ ms : Int, ms.natAbs ≤ lastMs.natAbs → parseTime (iso ms) = some ms) ∧
    (∀ a b : Int, InYears a → InYears b → (iso a < iso b ↔ a < b)) ∧
    (∀ text kept : String, canonicalTime text = some kept →
      canonicalTime kept = some kept ∧ parseTime kept = parseTime text) ∧
    ∀ (text text' kept kept' : String) (a b : Int), canonicalTime text = some kept →
      canonicalTime text' = some kept' → parseTime kept = some a → parseTime kept' = some b →
      InYears a → InYears b → (kept < kept' ↔ a < b ∨
        (a = b ∧ finerOf kept.toList ++ ['Z'] < finerOf kept'.toList ++ ['Z'])) :=
  ⟨fun _ => parse_iso, fun _ _ => iso_lt, fun _ _ => canonical_again,
    fun _ _ _ _ _ _ => canonical_lt⟩

/-- Two canonical times of one millisecond, the later of them first as a text. -/
theorem canonical_not_in_order :
    canonicalTime "2026-10-16T12:00:00.123Z" = some "2026-10-16T12:00:00.123Z" ∧
      canonicalTime "2026-10-16T12:00:00.1234Z" = some "2026-10-16T12:00:00.1234Z" ∧
      parseTime "2026-10-16T12:00:00.123Z" = parseTime "2026-10-16T12:00:00.1234Z" ∧
      "2026-10-16T12:00:00.1234Z" < "2026-10-16T12:00:00.123Z" := by
  decide

end ConsensFlow
