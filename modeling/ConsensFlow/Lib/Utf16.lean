/-
  File:      ConsensFlow/Lib/Utf16.lean
  Subject:   A TEXT IN UTF-16: its code units, and the text units are read as.

  * `encode` -- the units of a text;
  * `lossy` -- the text of units, half of a pair read as the replacement character;
    **`lossy_encode`**, `encode_lossy_length`, `size_lossy_le`;
  * **`cut_between`** -- units cut behind no first half are a text cut between two characters;
    `notHalved_before` -- and those before a first half end with none.
-/
import ConsensFlow.Lib.Utf8

namespace Lib.Utf16

open Lib.Utf8 (size size_cons size_append)

/-! ## 1. The units of a text -/

/-- A unit that is the first half of a pair. -/
def IsHigh (unit : Nat) : Prop := 0xD800 ≤ unit ∧ unit < 0xDC00

/-- A unit that is the second half of one. -/
def IsLow (unit : Nat) : Prop := 0xDC00 ≤ unit ∧ unit < 0xE000

instance (unit : Nat) : Decidable (IsHigh unit) := instDecidableAnd
instance (unit : Nat) : Decidable (IsLow unit) := instDecidableAnd

/-- The units of a character. -/
def units (c : Char) : List Nat :=
  if c.toNat < 0x10000 then [c.toNat]
  else [0xD800 + (c.toNat - 0x10000) / 0x400, 0xDC00 + (c.toNat - 0x10000) % 0x400]

def encode (text : List Char) : List Nat := text.flatMap units

@[simp] theorem encode_cons (c : Char) (text : List Char) :
    encode (c :: text) = units c ++ encode text := List.flatMap_cons

theorem toNat_cases (c : Char) :
    c.toNat < 0xD800 ∨ 0xE000 ≤ c.toNat ∧ c.toNat < 0x110000 := by
  rcases c.valid with low | ⟨above, below⟩
  · exact .inl low
  · exact .inr ⟨above, below⟩

/-- A character is one unit that is no half, or the halves of a pair. -/
theorem units_cases (c : Char) :
    (units c = [c.toNat] ∧ c.toNat < 0x10000 ∧ ¬IsHigh c.toNat ∧ ¬IsLow c.toNat) ∨
      ∃ high low, units c = [high, low] ∧ IsHigh high ∧ IsLow low ∧
        0x10000 + (high - 0xD800) * 0x400 + (low - 0xDC00) = c.toNat := by
  unfold units IsHigh IsLow
  rcases Nat.lt_or_ge c.toNat 0x10000 with below | above
  · rw [if_pos below]
    have := toNat_cases c
    exact .inl ⟨rfl, below, by omega, by omega⟩
  · rw [if_neg (Nat.not_lt.2 above)]
    have := toNat_cases c
    exact .inr ⟨_, _, rfl, by omega, by omega, by omega⟩

/-! ## 2. The text of units -/

/-- A unit on its own: half of a pair is the replacement character. -/
def alone (unit : Nat) : Char :=
  if unit < 0xD800 ∨ 0xE000 ≤ unit ∧ unit < 0x10000 then Char.ofNat unit else '\uFFFD'

def ofPair (high low : Nat) : Char :=
  Char.ofNat (0x10000 + (high - 0xD800) * 0x400 + (low - 0xDC00))

def lossy : List Nat → List Char
  | [] => []
  | [unit] => [alone unit]
  | high :: low :: rest =>
    if IsHigh high ∧ IsLow low then ofPair high low :: lossy rest
    else alone high :: lossy (low :: rest)

theorem lossy_pair {high low : Nat} (isHigh : IsHigh high) (isLow : IsLow low) (rest : List Nat) :
    lossy (high :: low :: rest) = ofPair high low :: lossy rest := by
  rw [lossy, if_pos ⟨isHigh, isLow⟩]

theorem lossy_alone {unit : Nat} (not : ¬IsHigh unit) (rest : List Nat) :
    lossy (unit :: rest) = alone unit :: lossy rest := by
  cases rest with
  | nil => rfl
  | cons low rest => rw [lossy, if_neg fun both => not both.1]

/-- The units of a text are read as that text, whatever comes after. -/
theorem lossy_encode_append (text : List Char) (rest : List Nat) :
    lossy (encode text ++ rest) = text ++ lossy rest := by
  induction text with
  | nil => rfl
  | cons c text ih =>
    rw [encode_cons]
    rcases units_cases c with ⟨one, below, notHigh, notLow⟩ | ⟨high, low, two, isHigh, isLow, whole⟩
    · have itself : alone c.toNat = c := by
        unfold IsHigh at notHigh
        unfold IsLow at notLow
        rw [alone, if_pos (by omega), Char.ofNat_toNat]
      rw [one]
      show lossy (c.toNat :: (encode text ++ rest)) = c :: (text ++ lossy rest)
      rw [lossy_alone notHigh, itself, ih]
    · have itself : ofPair high low = c := by rw [ofPair, whole, Char.ofNat_toNat]
      rw [two]
      show lossy (high :: low :: (encode text ++ rest)) = c :: (text ++ lossy rest)
      rw [lossy_pair isHigh isLow, itself, ih]

/-- **A text is what its units are read as.** -/
theorem lossy_encode (text : List Char) : lossy (encode text) = text := by
  have whole := lossy_encode_append text []
  rwa [List.append_nil, lossy, List.append_nil] at whole

theorem toNat_alone_lt (unit : Nat) : (alone unit).toNat < 0x10000 := by
  unfold alone
  split
  · rename_i plain
    rw [Char.toNat_ofNat, if_pos (by unfold Nat.isValidChar; omega)]
    omega
  · decide

theorem units_alone (unit : Nat) : (units (alone unit)).length = 1 := by
  rw [units, if_pos (toNat_alone_lt unit)]
  rfl

theorem units_ofPair {high low : Nat} (isHigh : IsHigh high) (isLow : IsLow low) :
    (units (ofPair high low)).length = 2 := by
  unfold IsHigh at isHigh
  unfold IsLow at isLow
  have same : (ofPair high low).toNat = 0x10000 + (high - 0xD800) * 0x400 + (low - 0xDC00) := by
    rw [ofPair, Char.toNat_ofNat, if_pos (by unfold Nat.isValidChar; omega)]
  rw [units, if_neg (by omega)]
  rfl

/-- The text of units has as many. -/
theorem encode_lossy_length (us : List Nat) : (encode (lossy us)).length = us.length := by
  fun_induction lossy us with
  | case1 => rfl
  | case2 unit =>
    rw [encode_cons, List.length_append, units_alone]
    rfl
  | case3 high low rest both ih =>
    rw [encode_cons, List.length_append, units_ofPair both.1 both.2, ih]
    simp only [List.length_cons]
    omega
  | case4 high low rest not ih =>
    rw [encode_cons, List.length_append, units_alone, ih]
    simp only [List.length_cons]
    omega

/-- A unit is three bytes of UTF-8 at most. -/
theorem size_alone_le (unit : Nat) : (alone unit).utf8Size ≤ 3 := by
  have below : (alone unit).val.toNat < 0x10000 := toNat_alone_lt unit
  have notFour : (alone unit).utf8Size ≠ 4 := by
    intro four
    rw [Char.utf8Size_eq_four_iff, UInt32.lt_iff_toNat_lt] at four
    have bound : (0xffff : UInt32).toNat = 0xffff := rfl
    omega
  have upTo := (alone unit).utf8Size_le_four
  omega

theorem size_lossy_le (us : List Nat) : size (lossy us) ≤ 3 * us.length := by
  fun_induction lossy us with
  | case1 => exact Nat.le_refl 0
  | case2 unit =>
    have one := size_alone_le unit
    rw [size_cons]
    exact one
  | case3 high low rest both ih =>
    have four := (ofPair high low).utf8Size_le_four
    rw [size_cons]
    simp only [List.length_cons]
    omega
  | case4 high low rest not ih =>
    have one := size_alone_le high
    rw [size_cons]
    simp only [List.length_cons] at ih ⊢
    omega

/-! ## 3. Cut between two characters -/

/-- The last of the units is no first half of a pair. -/
def NotHalved (us : List Nat) : Prop := ∀ unit, us.getLast? = some unit → ¬IsHigh unit

theorem NotHalved.tail {unit : Nat} {us : List Nat} (whole : NotHalved (unit :: us)) :
    NotHalved us := by
  intro last here
  refine whole last ?_
  rw [List.getLast?_cons, here]
  rfl

theorem NotHalved.cons {unit other : Nat} {us : List Nat} (whole : NotHalved (other :: us)) :
    NotHalved (unit :: other :: us) := by
  intro last here
  exact whole last here

theorem NotHalved.one {unit : Nat} (not : ¬IsHigh unit) {us : List Nat} (whole : NotHalved us) :
    NotHalved (unit :: us) := by
  cases us with
  | nil =>
    intro last here
    rw [← Option.some.inj here]
    exact not
  | cons other us => exact whole.cons

/-- Before a first half of a pair there is none. -/
theorem notHalved_before (text : List Char) {n unit : Nat}
    (here : (encode text)[n]? = some unit) (high : IsHigh unit) :
    NotHalved ((encode text).take n) := by
  induction text generalizing n with
  | nil => cases here
  | cons c text ih =>
    cases n with
    | zero =>
      intro last none_
      cases none_
    | succ m =>
      rw [encode_cons] at here ⊢
      rcases units_cases c with ⟨one, -, notHigh, -⟩ | ⟨first, second, two, -, isLow, -⟩
      · rw [one] at here ⊢
        exact NotHalved.one notHigh (ih here)
      · rw [two] at here ⊢
        have notHigh : ¬IsHigh second := fun isHigh => Nat.not_lt.2 isLow.1 isHigh.2
        cases m with
        | zero =>
          rw [← Option.some.inj here] at high
          exact absurd high notHigh
        | succ k => exact (NotHalved.one notHigh (ih here)).cons

/-- **Units cut behind no first half of a pair** are those of a text cut between two characters. -/
theorem cut_between (text : List Char) (n : Nat) (whole : NotHalved ((encode text).take n)) :
    ∃ a b, text = a ++ b ∧ (encode text).take n = encode a ∧ (encode text).drop n = encode b := by
  induction text generalizing n with
  | nil => exact ⟨[], [], rfl, List.take_nil, List.drop_nil⟩
  | cons c text ih =>
    cases n with
    | zero => exact ⟨[], c :: text, rfl, rfl, rfl⟩
    | succ m =>
      rw [encode_cons] at whole ⊢
      rcases units_cases c with ⟨one, -⟩ | ⟨high, low, two, isHigh, -⟩
      · rw [one, List.singleton_append] at whole ⊢
        obtain ⟨a, b, rfl, upTo, rest⟩ := ih m whole.tail
        refine ⟨c :: a, b, rfl, ?_, rest⟩
        rw [List.take_succ_cons, upTo, encode_cons, one, List.singleton_append]
      · rw [two] at whole ⊢
        cases m with
        | zero => exact absurd isHigh (whole high rfl)
        | succ k =>
          obtain ⟨a, b, rfl, upTo, rest⟩ := ih k whole.tail.tail
          refine ⟨c :: a, b, rfl, ?_, rest⟩
          show high :: low :: (encode (a ++ b)).take k = encode (c :: a)
          rw [upTo, encode_cons, two]
          rfl

end Lib.Utf16
