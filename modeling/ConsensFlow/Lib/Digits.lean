/-
  File:      ConsensFlow/Lib/Digits.lean
  Subject:   NUMBERS WRITTEN IN DIGITS, AND THE ORDER OF TEXTS THAT BEGIN WITH THEM.

  * `value`, `Numeral` -- digits of a width, and the number they write;
  * `Numeral.append_lt` -- **texts that begin with numerals of one width sort as the numbers do**, and
    then as what follows;
  * `padded_numeral` -- a number with zeros before it is a numeral that writes it.
-/
import Mathlib

namespace Lib.Digits

/-! ## 1. Numerals -/

/-- The number a digit writes. -/
def digit (c : Char) : Nat := c.toNat - '0'.toNat

/-- The number some digits write. -/
def value (cs : List Char) : Nat := Nat.ofDigitChars 10 cs 0

/-- Digits, of a width. -/
structure Numeral (width : Nat) (cs : List Char) : Prop where
  length : cs.length = width
  digits : ∀ c ∈ cs, c.isDigit = true

variable {width : Nat} {a b x y cs : List Char} {c c' : Char}

theorem digit_lt (h : c.isDigit = true) : digit c < 10 := by
  have range := Char.isDigit_iff_toNat.1 h
  have zero : '0'.toNat = 48 := rfl
  have nine : '9'.toNat = 57 := rfl
  unfold digit
  omega

theorem digit_toNat (h : c.isDigit = true) : c.toNat = 48 + digit c := by
  have range := Char.isDigit_iff_toNat.1 h
  have zero : '0'.toNat = 48 := rfl
  have nine : '9'.toNat = 57 := rfl
  unfold digit
  omega

theorem value_append (a b : List Char) : value (a ++ b) = 10 ^ b.length * value a + value b := by
  rw [value, Nat.ofDigitChars_append, Nat.ofDigitChars_eq_ofDigitChars_zero]
  rfl

theorem value_cons (c : Char) (cs : List Char) :
    value (c :: cs) = digit c * 10 ^ cs.length + value cs := by
  rw [value, Nat.ofDigitChars_cons, Nat.ofDigitChars_eq_ofDigitChars_zero, Nat.mul_zero, Nat.zero_add,
    Nat.mul_comm]
  rfl

theorem Numeral.tail (h : Numeral width (c :: cs)) : Numeral cs.length cs :=
  ⟨rfl, fun c one => h.digits c (List.mem_cons_of_mem _ one)⟩

/-- A numeral is below the power of ten of its width. -/
theorem Numeral.value_lt (h : Numeral width cs) : value cs < 10 ^ width := by
  induction cs generalizing width with
  | nil =>
    rw [← h.length]
    exact Nat.one_pos
  | cons c cs ih =>
    have few := ih h.tail
    have one := digit_lt (h.digits c List.mem_cons_self)
    rw [← h.length, value_cons, List.length_cons, Nat.pow_succ]
    have most : digit c * 10 ^ cs.length ≤ 9 * 10 ^ cs.length := Nat.mul_le_mul_right _ (by omega)
    omega

/-- A digit is before another as a character just where it is as a number. -/
theorem digit_lt_iff (h : c.isDigit = true) (h' : c'.isDigit = true) : c < c' ↔ digit c < digit c' := by
  have less : c < c' ↔ c.toNat < c'.toNat := Iff.rfl
  rw [less, digit_toNat h, digit_toNat h', Nat.add_lt_add_iff_left]

theorem digit_inj (h : c.isDigit = true) (h' : c'.isDigit = true) (same : digit c = digit c') :
    c = c' := by
  refine Char.toNat_inj.1 ?_
  rw [digit_toNat h, digit_toNat h', same]

/-- **Texts that begin with numerals of one width sort as the numbers do, and then as the rest.** -/
theorem Numeral.append_lt (ha : Numeral width a) (hb : Numeral width b) (x y : List Char) :
    a ++ x < b ++ y ↔ value a < value b ∨ (value a = value b ∧ x < y) := by
  induction a generalizing width b with
  | nil =>
    cases b with
    | nil => simp
    | cons c' b =>
      have none_ := ha.length.trans hb.length.symm
      cases none_
  | cons c a ih =>
    cases b with
    | nil =>
      have none_ := ha.length.trans hb.length.symm
      cases none_
    | cons c' b =>
      have same : a.length = b.length := Nat.succ.inj (ha.length.trans hb.length.symm)
      have hc := ha.digits c List.mem_cons_self
      have hc' := hb.digits c' List.mem_cons_self
      have few := ha.tail.value_lt
      have few' := hb.tail.value_lt
      rw [List.cons_append, List.cons_append, List.cons_lt_cons_iff, digit_lt_iff hc hc',
        ih ha.tail (same ▸ hb.tail), value_cons, value_cons, same]
      rw [same] at few
      rcases Nat.lt_trichotomy (digit c) (digit c') with less | equal | more
      · have step : (digit c + 1) * 10 ^ b.length ≤ digit c' * 10 ^ b.length :=
          Nat.mul_le_mul_right _ less
        rw [Nat.succ_mul] at step
        exact iff_of_true (Or.inl less) (Or.inl (by omega))
      · rw [digit_inj hc hc' equal]
        simp only [Nat.lt_irrefl, false_or, true_and, Nat.add_lt_add_iff_left, Nat.add_left_cancel_iff]
      · have step : (digit c' + 1) * 10 ^ b.length ≤ digit c * 10 ^ b.length :=
          Nat.mul_le_mul_right _ more
        rw [Nat.succ_mul] at step
        refine iff_of_false ?_ (by omega)
        rintro (less | ⟨rfl, -⟩)
        · omega
        · omega

/-! ## 2. Written -/

/-- A number's digits, with zeros before them to a width. -/
def padded (width n : Nat) : List Char :=
  List.replicate (width - (Nat.toDigits 10 n).length) '0' ++ Nat.toDigits 10 n

/-- **A number with zeros before it is a numeral that writes it.** -/
theorem padded_numeral {n : Nat} (some_ : 0 < width) (fits : n < 10 ^ width) :
    Numeral width (padded width n) := by
  have short := (Nat.length_toDigits_le_iff (by decide) some_).2 fits
  refine ⟨?_, fun c one => ?_⟩
  · rw [padded, List.length_append, List.length_replicate]
    omega
  · rcases List.mem_append.1 one with zero | one
    · rw [List.eq_of_mem_replicate zero]
      rfl
    · exact Nat.isDigit_of_mem_toDigits (by decide) (by decide) one

theorem padded_value (width n : Nat) : value (padded width n) = n := by
  rw [padded, value_append, value, Nat.ofDigitChars_replicate_zero, Nat.mul_zero, Nat.mul_zero,
    Nat.zero_add, value, Nat.ofDigitChars_ten_toDigits]

end Lib.Digits
