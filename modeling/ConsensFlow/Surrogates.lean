/-
  File:      ConsensFlow/Surrogates.lean
  Subject:   LONE SURROGATES IN A JSON TEXT (`cf-base`: `json.rs`: `without_lone_surrogates`).

  The source cuts its text at byte indexes and would panic inside a character: a cut there is
  `none`. Its answer is the text as it was, or another.

  * `Fixing`, `byJumps`, `byTheByte` -- the scan from backslash to backslash, and the one of every
    byte that the source keeps beside it as a reference;
  * `Piece`, `pieces` -- what a text is read as, from its start;
  * `byJumps_eq` -- the two scans agree; `byTheByte_spec` -- and write the pieces;
  * **`lone_surrogates_are_replaced`** -- each lone surrogate's escape is replaced, and no other
    byte.
-/
import ConsensFlow.Lib.Utf8

namespace ConsensFlow.Surrogates

open Lib.Utf8

/-! ## 1. The scans -/

def isHex (b : UInt8) : Bool :=
  (0x30 ≤ b && b ≤ 0x39) || (0x61 ≤ b && b ≤ 0x66) || (0x41 ≤ b && b ≤ 0x46)

def hexValue (b : UInt8) : Nat :=
  if b ≤ 0x39 then b.toNat - 0x30 else if b ≤ 0x46 then b.toNat - 0x37 else b.toNat - 0x57

/-- The UTF-16 code unit a `\uXXXX` escape at the head of these bytes stands for. -/
def unitOf : List UInt8 → Option Nat
  | s :: u :: a :: b :: c :: d :: _ =>
    if s = 0x5c ∧ u = 0x75 ∧ isHex a ∧ isHex b ∧ isHex c ∧ isHex d then
      some (((hexValue a * 16 + hexValue b) * 16 + hexValue c) * 16 + hexValue d)
    else none
  | _ => none

/-- That of the escape at an index. -/
def escapedUnit (bytes : List UInt8) (at_ : Nat) : Option Nat := unitOf (bytes.drop at_)

def leading (unit : Nat) : Bool := 0xd800 ≤ unit && unit ≤ 0xdbff

def trailing (unit : Nat) : Bool := 0xdc00 ≤ unit && unit ≤ 0xdfff

/-- What a scan keeps: the text it has written, if it changed any, up to where that is a copy of
    the text, and where it reads. -/
structure Fixing where
  fixed : Option (List Char) := none
  copied : Nat := 0
  at_ : Nat := 0

/-- The escape of U+FFFD. -/
def replacement : List Char := "\\ufffd".toList

/-- At a backslash. -/
def atEscape (json : List Char) (s : Fixing) : Option Fixing :=
  match escapedUnit (bytes json) s.at_ with
  | none => some { s with at_ := s.at_ + 2 }
  | some unit =>
    if leading unit && (escapedUnit (bytes json) (s.at_ + 6)).any trailing then
      some { s with at_ := s.at_ + 12 }
    else if leading unit || trailing unit then
      (slice json s.copied s.at_).map fun kept =>
        { fixed := some (s.fixed.getD [] ++ kept ++ replacement)
          copied := s.at_ + 6
          at_ := s.at_ + 6 }
    else some { s with at_ := s.at_ + 6 }

theorem atEscape_later {json : List Char} {s s' : Fixing} (h : atEscape json s = some s') :
    s.at_ < s'.at_ := by
  unfold atEscape at h
  split at h
  · cases h
    exact Nat.lt_add_of_pos_right (by decide)
  · split at h
    · cases h
      exact Nat.lt_add_of_pos_right (by decide)
    · split at h
      · obtain ⟨kept, -, rfl⟩ := Option.map_eq_some_iff.1 h
        exact Nat.lt_add_of_pos_right (by decide)
      · cases h
        exact Nat.lt_add_of_pos_right (by decide)

/-- `memchr`: where a byte is first. -/
def memchr (b : UInt8) : List UInt8 → Option Nat
  | [] => none
  | x :: rest => if x = b then some 0 else (memchr b rest).map (· + 1)

theorem memchr_some {b : UInt8} {bs : List UInt8} {n : Nat} (h : memchr b bs = some n) :
    n < bs.length ∧ bs[n]? = some b ∧ ∀ k < n, bs[k]? ≠ some b := by
  induction bs generalizing n with
  | nil => cases h
  | cons x rest ih =>
    rw [memchr] at h
    split at h
    · rename_i same
      cases h
      exact ⟨Nat.succ_pos _, congrArg some same, fun k less => absurd less (Nat.not_lt_zero k)⟩
    · rename_i other
      obtain ⟨m, found, rfl⟩ := Option.map_eq_some_iff.1 h
      obtain ⟨inside, here, before⟩ := ih found
      refine ⟨Nat.succ_lt_succ inside, here, fun k less => ?_⟩
      cases k with
      | zero => exact fun same => other (Option.some.inj same)
      | succ k => exact before k (Nat.lt_of_succ_lt_succ less)

/-- The scan from one backslash to the next. -/
def byJumps (json : List Char) (s : Fixing) : Option Fixing :=
  match _jump : memchr 0x5c ((bytes json).drop s.at_) with
  | none => some s
  | some found =>
    match _turn : atEscape json { s with at_ := s.at_ + found } with
    | none => none
    | some s' => byJumps json s'
termination_by (bytes json).length - s.at_
decreasing_by
  have inside := (memchr_some _jump).1
  have later := atEscape_later _turn
  rw [List.length_drop] at inside
  dsimp only at later
  omega

/-- The scan of every byte. -/
def byTheByte (json : List Char) (s : Fixing) : Option Fixing :=
  match _here : (bytes json)[s.at_]? with
  | none => some s
  | some b =>
    if b ≠ 0x5c then byTheByte json { s with at_ := s.at_ + 1 }
    else
      match _turn : atEscape json s with
      | none => none
      | some s' => byTheByte json s'
termination_by (bytes json).length - s.at_
decreasing_by
  · have inside := (List.getElem?_eq_some_iff.1 _here).1
    omega
  · have inside := (List.getElem?_eq_some_iff.1 _here).1
    have later := atEscape_later _turn
    omega

/-- The text as it was, or what was written with the rest of it. -/
def finish (json : List Char) (s : Fixing) : Option (Option (List Char)) :=
  match s.fixed with
  | none => some none
  | some out => (slice json s.copied (size json)).map fun rest => some (out ++ rest)

def withoutLoneSurrogates (json : List Char) : Option (Option (List Char)) :=
  (byJumps json {}).bind (finish json)

/-- The reference. -/
def byTheByteOf (json : List Char) : Option (Option (List Char)) :=
  (byTheByte json {}).bind (finish json)

/-! ## 2. What a text is read as -/

/-- A run of bytes that is kept, or the escape of a lone surrogate. -/
inductive Piece where
  | kept (bs : List UInt8)
  | lone (bs : List UInt8)

namespace Piece

/-- Its own bytes. -/
def own : Piece → List UInt8
  | kept bs => bs
  | lone bs => bs

/-- With U+FFFD's escape for a lone surrogate's. -/
def written : Piece → List UInt8
  | kept bs => bs
  | lone _ => bytes replacement

def isLone : Piece → Bool
  | kept _ => false
  | lone _ => true

end Piece

/-- How many bytes the escape at the head of these is read with, and whether it is a lone
    surrogate's. -/
def escapeOf (bs : List UInt8) : Nat × Bool :=
  match unitOf bs with
  | none => (2, false)
  | some unit =>
    if leading unit && (unitOf (bs.drop 6)).any trailing then (12, false)
    else (6, leading unit || trailing unit)

theorem escapeOf_pos (bs : List UInt8) : 0 < (escapeOf bs).1 := by
  unfold escapeOf
  split
  · exact Nat.succ_pos _
  · split
    · exact Nat.succ_pos _
    · exact Nat.succ_pos _

/-- A text from its start: bytes that begin no escape, and escapes, of which a pair of surrogates is
    one. -/
def pieces : List UInt8 → List Piece
  | [] => []
  | b :: rest =>
    if b ≠ 0x5c then .kept [b] :: pieces rest
    else
      (if (escapeOf (b :: rest)).2 then .lone ((b :: rest).take (escapeOf (b :: rest)).1)
        else .kept ((b :: rest).take (escapeOf (b :: rest)).1)) ::
        pieces ((b :: rest).drop (escapeOf (b :: rest)).1)
termination_by bs => bs.length
decreasing_by
  · exact Nat.lt_succ_self _
  · have some_ := escapeOf_pos (b :: rest)
    rw [List.length_drop]
    have long : (b :: rest).length = rest.length + 1 := rfl
    omega

/-- The pieces are the text. -/
theorem pieces_own (bs : List UInt8) : (pieces bs).flatMap Piece.own = bs := by
  fun_induction pieces bs with
  | case1 => rfl
  | case2 b rest plain ih =>
    rw [List.flatMap_cons, ih]
    rfl
  | case3 b rest escape ih =>
    rw [List.flatMap_cons, ih]
    have own : (if (escapeOf (b :: rest)).2 then
        Piece.lone ((b :: rest).take (escapeOf (b :: rest)).1)
        else .kept ((b :: rest).take (escapeOf (b :: rest)).1)).own =
        (b :: rest).take (escapeOf (b :: rest)).1 := by
      split <;> rfl
    rw [own, List.take_append_drop]

/-! ## 3. What is written is read as it was written -/

theorem unitOf_some {bs : List UInt8} {unit : Nat} (h : unitOf bs = some unit) :
    ∃ a b c d rest, bs = 0x5c :: 0x75 :: a :: b :: c :: d :: rest ∧
      (isHex a = true ∧ isHex b = true ∧ isHex c = true ∧ isHex d = true) := by
  unfold unitOf at h
  split at h
  · rename_i s u a b c d rest
    split at h
    · rename_i escape
      obtain ⟨rfl, rfl, hex⟩ := escape
      exact ⟨a, b, c, d, rest, rfl, hex⟩
    · cases h
  · cases h

theorem unitOf_append {xs : List UInt8} (long : 6 ≤ xs.length) (ys : List UInt8) :
    unitOf (xs ++ ys) = unitOf xs := by
  obtain ⟨s, u, a, b, c, d, rest, rfl⟩ : ∃ s u a b c d rest,
      xs = s :: u :: a :: b :: c :: d :: rest := by
    match xs, long with
    | s :: u :: a :: b :: c :: d :: rest, _ => exact ⟨s, u, a, b, c, d, rest, rfl⟩
  rfl

theorem unitOf_take {bs : List UInt8} {n : Nat} (wide : 6 ≤ n) (long : n ≤ bs.length)
    (ws : List UInt8) : unitOf (bs.take n ++ ws) = unitOf bs := by
  have six : 6 ≤ (bs.take n).length := by
    rw [List.length_take]
    omega
  rw [unitOf_append six, ← unitOf_append six (bs.drop n), List.take_append_drop]

theorem unitOf_long {bs : List UInt8} {unit : Nat} (h : unitOf bs = some unit) : 6 ≤ bs.length := by
  obtain ⟨a, b, c, d, rest, rfl, -⟩ := unitOf_some h
  simp

/-- No hexadecimal digit is a backslash. -/
theorem isHex_ne {b : UInt8} (hex : isHex b = true) : b ≠ 0x5c := by
  rintro rfl
  exact absurd hex (by decide)

/-- Bytes that are the same up to a backslash in both. -/
inductive Alike : List UInt8 → List UInt8 → Prop
  | nil : Alike [] []
  | cons {b : UInt8} {xs ys : List UInt8} (rest : b ≠ 0x5c → Alike xs ys) :
      Alike (b :: xs) (b :: ys)

theorem Alike.hex {b : UInt8} {xs ys : List UInt8} (alike : Alike xs (b :: ys))
    (hex : isHex b = true) : ∃ xs', xs = b :: xs' ∧ Alike xs' ys := by
  cases alike with
  | cons rest => exact ⟨_, rfl, rest (isHex_ne hex)⟩

/-- An escape that is not one is none behind such a change either. -/
theorem Alike.unitOf {s u : UInt8} {xs ys : List UInt8} (alike : Alike xs ys)
    (none_ : unitOf (s :: u :: xs) = none) : Surrogates.unitOf (s :: u :: ys) = none := by
  cases there : Surrogates.unitOf (s :: u :: ys) with
  | none => rfl
  | some unit =>
    obtain ⟨a, b, c, d, rest, same, ha, hb, hc, hd⟩ := unitOf_some there
    cases same
    obtain ⟨xs₁, rfl, alike₁⟩ := alike.hex ha
    obtain ⟨xs₂, rfl, alike₂⟩ := alike₁.hex hb
    obtain ⟨xs₃, rfl, alike₃⟩ := alike₂.hex hc
    obtain ⟨xs₄, rfl, -⟩ := alike₃.hex hd
    exact (none_.symm.trans there).symm

theorem alike_written (bs : List UInt8) : Alike bs ((pieces bs).flatMap Piece.written) := by
  fun_induction pieces bs with
  | case1 => exact .nil
  | case2 b rest plain ih => exact .cons fun _ => ih
  | case3 b rest escape ih =>
    have slash : b = 0x5c := not_not.1 escape
    subst slash
    rw [List.flatMap_cons]
    obtain ⟨n, width⟩ := Nat.exists_eq_succ_of_ne_zero (escapeOf_pos (0x5c :: rest)).ne'
    split
    · exact .cons fun other => absurd rfl other
    · rw [width, List.take_succ_cons]
      exact .cons fun other => absurd rfl other

/-- **What an escape is read with is kept behind it.** -/
theorem escapeOf_written {bs ws : List UInt8} {b : UInt8} {rest : List UInt8}
    (bs_ : bs = b :: rest) (kept : (escapeOf bs).2 = false)
    (alike : Alike (bs.drop (escapeOf bs).1) ws) :
    escapeOf (bs.take (escapeOf bs).1 ++ ws) = escapeOf bs := by
  cases unit : unitOf bs with
  | none =>
    have two : escapeOf bs = (2, false) := by rw [escapeOf, unit]
    rw [two] at alike ⊢
    have none_ : unitOf (bs.take 2 ++ ws) = none := by
      subst bs_
      cases rest with
      | nil =>
        cases alike
        rfl
      | cons c more => exact alike.unitOf unit
    rw [escapeOf, none_]
  | some k =>
    have long := unitOf_long unit
    by_cases pair : (leading k && (unitOf (bs.drop 6)).any trailing) = true
    · have twelve : escapeOf bs = (12, false) := by
        rw [escapeOf, unit]
        exact if_pos pair
      rw [twelve]
      have wide : 12 ≤ bs.length := by
        cases second : unitOf (bs.drop 6) with
        | none =>
          rw [second, Option.any_none, Bool.and_false] at pair
          cases pair
        | some low =>
          have behind := unitOf_long second
          rw [List.length_drop] at behind
          omega
      have second : (bs.take 12 ++ ws).drop 6 = (bs.drop 6).take 6 ++ ws := by
        rw [List.drop_append_of_le_length (by rw [List.length_take]; omega), List.drop_take]
      have behind : unitOf ((bs.drop 6).take 6 ++ ws) = unitOf (bs.drop 6) :=
        unitOf_take (Nat.le_refl 6) (by rw [List.length_drop]; omega) ws
      rw [escapeOf, unitOf_take (by decide) wide, unit, second, behind]
      exact if_pos pair
    · have six : escapeOf bs = (6, leading k || trailing k) := by
        rw [escapeOf, unit]
        exact if_neg pair
      rw [six] at kept ⊢
      have low : leading k = false := (Bool.or_eq_false_iff.1 kept).1
      rw [escapeOf, unitOf_take (Nat.le_refl 6) long, unit]
      dsimp only
      rw [low, Bool.false_and, if_neg (by decide)]

theorem escapeOf_lone {bs : List UInt8} (lone : (escapeOf bs).2 = true) :
    (escapeOf bs).1 = 6 ∧ 6 ≤ bs.length := by
  unfold escapeOf at lone ⊢
  cases unit : unitOf bs with
  | none =>
    rw [unit] at lone
    cases lone
  | some k =>
    rw [unit] at lone
    dsimp only at lone ⊢
    refine ⟨?_, unitOf_long unit⟩
    split
    · rename_i pair
      rw [if_pos pair] at lone
      cases lone
    · rfl

/-- The escape of U+FFFD is no surrogate's. -/
theorem escapeOf_replacement (ws : List UInt8) :
    escapeOf (bytes replacement ++ ws) = (6, false) := by
  have six : bytes replacement = [0x5c, 0x75, 0x66, 0x66, 0x66, 0x64] := by decide
  rw [six]
  rfl

/-- **A written text is read as the pieces it was written of.** -/
theorem pieces_written (bs : List UInt8) :
    pieces ((pieces bs).flatMap Piece.written) = (pieces bs).map fun p => .kept p.written := by
  fun_induction pieces bs with
  | case1 => rw [List.flatMap_nil, pieces]; rfl
  | case2 b rest plain ih =>
    rw [List.flatMap_cons, List.map_cons]
    show pieces (b :: (pieces rest).flatMap Piece.written) = _
    rw [pieces, if_pos plain, ih]
    rfl
  | case3 b rest escape ih =>
    have slash : b = 0x5c := not_not.1 escape
    have behind := alike_written ((b :: rest).drop (escapeOf (b :: rest)).1)
    rw [List.flatMap_cons, List.map_cons]
    generalize (pieces ((b :: rest).drop (escapeOf (b :: rest)).1)).flatMap Piece.written = ws
      at ih behind ⊢
    by_cases lone : (escapeOf (b :: rest)).2 = true
    · rw [if_pos lone]
      have head : bytes replacement = 0x5c :: [0x75, 0x66, 0x66, 0x66, 0x64] := by decide
      have read := escapeOf_replacement ws
      show pieces (bytes replacement ++ ws) = .kept (bytes replacement) :: _
      rw [head, List.cons_append] at read ⊢
      rw [pieces, if_neg (not_not.2 rfl), read, if_neg (by decide)]
      show Piece.kept _ :: pieces ws = _
      rw [ih]
      rfl
    · have kept : (escapeOf (b :: rest)).2 = false := Bool.eq_false_iff.2 lone
      rw [if_neg lone]
      show pieces ((b :: rest).take (escapeOf (b :: rest)).1 ++ ws) = _
      have read := escapeOf_written rfl kept behind
      obtain ⟨n, width⟩ := Nat.exists_eq_succ_of_ne_zero (escapeOf_pos (b :: rest)).ne'
      have whole : ((b :: rest).take (escapeOf (b :: rest)).1 ++ ws).take (escapeOf (b :: rest)).1 =
          (b :: rest).take (escapeOf (b :: rest)).1 ∧
          ((b :: rest).take (escapeOf (b :: rest)).1 ++ ws).drop (escapeOf (b :: rest)).1 = ws := by
        rcases Nat.lt_or_ge (b :: rest).length (escapeOf (b :: rest)).1 with short | long
        · rw [List.drop_of_length_le (Nat.le_of_lt short)] at behind
          cases behind
          rw [List.append_nil, List.take_take, Nat.min_self]
          exact ⟨rfl, List.drop_of_length_le (List.length_take_le _ _)⟩
        · have length : ((b :: rest).take (escapeOf (b :: rest)).1).length =
              (escapeOf (b :: rest)).1 := List.length_take_of_le long
          exact ⟨List.take_left' length, List.drop_left' length⟩
      have head : (b :: rest).take (escapeOf (b :: rest)).1 ++ ws = b :: (rest.take n ++ ws) := by
        rw [width]
        rfl
      rw [head] at read whole ⊢
      rw [pieces, if_neg escape, read, if_neg (by rw [kept]; decide), whole.1, whole.2, ih]
      rfl

/-- Nothing of what is written is a lone surrogate's. -/
theorem none_lone (bs : List UInt8) :
    ∀ p ∈ pieces ((pieces bs).flatMap Piece.written), p.isLone = false := by
  rw [pieces_written]
  intro p one
  obtain ⟨q, -, rfl⟩ := List.mem_map.1 one
  rfl

/-- What is written is as long. -/
theorem written_length (bs : List UInt8) :
    ((pieces bs).flatMap Piece.written).length = bs.length := by
  fun_induction pieces bs with
  | case1 => rfl
  | case2 b rest plain ih =>
    rw [List.flatMap_cons, List.length_append, ih, List.length_cons, Nat.add_comm]
    rfl
  | case3 b rest escape ih =>
    rw [List.flatMap_cons, List.length_append, ih]
    have length : (if (escapeOf (b :: rest)).2 then
        Piece.lone ((b :: rest).take (escapeOf (b :: rest)).1)
        else .kept ((b :: rest).take (escapeOf (b :: rest)).1)).written.length =
        ((b :: rest).take (escapeOf (b :: rest)).1).length := by
      split
      · rename_i lone
        obtain ⟨six, long⟩ := escapeOf_lone lone
        rw [six, List.length_take_of_le long]
        show (bytes replacement).length = 6
        decide
      · rfl
    rw [length, ← List.length_append, List.take_append_drop]

/-! ## 4. What the scan writes -/

variable {json : List Char} {s s' : Fixing} {b : UInt8}

/-- What is written up to where the scan reads. -/
def doneOf (json : List Char) (s : Fixing) : List UInt8 :=
  bytes (s.fixed.getD []) ++ ((bytes json).take s.at_).drop s.copied

/-- What is copied ends between two characters, no further than the scan reads, and at the start
    where nothing was changed. -/
structure Sound (json : List Char) (s : Fixing) : Prop where
  between : Between json s.copied
  upto : s.copied ≤ s.at_
  plain : s.fixed = none → s.copied = 0

theorem bytes_append (a b : List Char) : bytes (a ++ b) = bytes a ++ bytes b := List.flatMap_append

/-- Read on, without a change. -/
theorem doneOf_on (n : Nat) (upto : s.copied ≤ s.at_) (inside : s.at_ ≤ (bytes json).length) :
    doneOf json { s with at_ := s.at_ + n } =
      doneOf json s ++ ((bytes json).drop s.at_).take n := by
  have far : s.copied ≤ ((bytes json).take s.at_).length := by
    rw [List.length_take]
    omega
  unfold doneOf
  dsimp only
  rw [List.take_add, List.drop_append_of_le_length far, List.append_assoc]

theorem Sound.on (sound : Sound json s) (n : Nat) : Sound json { s with at_ := s.at_ + n } :=
  ⟨sound.between, Nat.le_add_right_of_le sound.upto, sound.plain⟩

/-- Behind the escape of one unit there is no character cut. -/
theorem between_escape {unit n : Nat} (escape : escapedUnit (bytes json) n = some unit) :
    Between json n ∧ Between json (n + 6) := by
  obtain ⟨a, b, c, d, rest, bytes_, -, -, -, hex⟩ := unitOf_some escape
  have read (k : Nat) : codeAt json (n + k) = ((bytes json).drop n)[k]? := by
    rw [codeAt, List.getElem?_drop]
  have first : codeAt json n = some 0x5c := by
    have here := read 0
    rw [bytes_, Nat.add_zero] at here
    exact here
  have last : codeAt json (n + 5) = some d := by
    have here := read 5
    rw [bytes_] at here
    exact here
  have low : d.toNat < 0x80 := by
    unfold isHex at hex
    simp only [Bool.or_eq_true, Bool.and_eq_true, decide_eq_true_eq, UInt8.le_iff_toNat_le,
      UInt8.reduceToNat] at hex
    omega
  exact ⟨(between_low first (by decide)).1, (between_low last low).2⟩

/-- **At a backslash**: the scan goes on behind the escape, with its piece written. -/
theorem atEscape_spec (sound : Sound json s) (here : (bytes json)[s.at_]? = some 0x5c) :
    ∃ s', atEscape json s = some s' ∧ Sound json s' ∧
      s'.at_ = s.at_ + (escapeOf ((bytes json).drop s.at_)).1 ∧
      (s'.fixed = none ↔ s.fixed = none ∧ (escapeOf ((bytes json).drop s.at_)).2 = false) ∧
      doneOf json s' = doneOf json s ++
        (if (escapeOf ((bytes json).drop s.at_)).2 then bytes replacement
          else ((bytes json).drop s.at_).take (escapeOf ((bytes json).drop s.at_)).1) := by
  have inside : s.at_ ≤ (bytes json).length := Nat.le_of_lt (List.getElem?_eq_some_iff.1 here).1
  have on (n : Nat) (read : escapeOf ((bytes json).drop s.at_) = (n, false)) :
      Sound json { s with at_ := s.at_ + n } ∧
        s.at_ + n = s.at_ + (escapeOf ((bytes json).drop s.at_)).1 ∧
        (s.fixed = none ↔ s.fixed = none ∧ (escapeOf ((bytes json).drop s.at_)).2 = false) ∧
        doneOf json { s with at_ := s.at_ + n } = doneOf json s ++
          (if (escapeOf ((bytes json).drop s.at_)).2 then bytes replacement
            else ((bytes json).drop s.at_).take (escapeOf ((bytes json).drop s.at_)).1) := by
    rw [read]
    exact ⟨sound.on n, rfl, ⟨fun none_ => ⟨none_, rfl⟩, And.left⟩, doneOf_on n sound.upto inside⟩
  have second : escapedUnit (bytes json) (s.at_ + 6) =
      unitOf (((bytes json).drop s.at_).drop 6) := by
    rw [escapedUnit, List.drop_drop]
  unfold atEscape
  cases unit : escapedUnit (bytes json) s.at_ with
  | none =>
    have read : escapeOf ((bytes json).drop s.at_) = (2, false) := by
      rw [escapeOf, ← escapedUnit, unit]
    exact ⟨_, rfl, on 2 read⟩
  | some unit_ =>
    have read : escapeOf ((bytes json).drop s.at_) =
        if leading unit_ && (escapedUnit (bytes json) (s.at_ + 6)).any trailing then (12, false)
        else (6, leading unit_ || trailing unit_) := by
      rw [escapeOf, ← escapedUnit, unit, ← second]
    dsimp only
    by_cases pair : (leading unit_ && (escapedUnit (bytes json) (s.at_ + 6)).any trailing) = true
    · rw [if_pos pair] at read ⊢
      exact ⟨_, rfl, on 12 read⟩
    rw [if_neg pair] at read ⊢
    by_cases lone : (leading unit_ || trailing unit_) = true
    · obtain ⟨from_, behind⟩ := between_escape unit
      obtain ⟨kept, cut, kept_⟩ := slice_bytes sound.between from_ sound.upto
      rw [if_pos lone, cut, read, lone]
      refine ⟨_, rfl, ⟨behind, Nat.le_refl _, fun none_ => by cases none_⟩, rfl,
        iff_of_false (fun none_ => by cases none_) (fun both => by cases both.2), ?_⟩
      unfold doneOf
      dsimp only
      rw [Option.getD_some, bytes_append, bytes_append, kept_, if_pos rfl,
        List.drop_of_length_le (List.length_take_le _ _), List.append_nil]
    · rw [if_neg lone]
      exact ⟨_, rfl, on 6 (by rw [read, Bool.eq_false_iff.2 lone])⟩

theorem pieces_plain {bs : List UInt8} {n : Nat} (here : bs[n]? = some b) (plain : b ≠ 0x5c) :
    pieces (bs.drop n) = .kept [b] :: pieces (bs.drop (n + 1)) := by
  rw [List.drop_eq_getElem_cons (List.getElem?_eq_some_iff.1 here).1,
    (List.getElem?_eq_some_iff.1 here).2, pieces, if_pos plain]

theorem pieces_escape {bs : List UInt8} {n : Nat} (here : bs[n]? = some 0x5c) :
    pieces (bs.drop n) =
      (if (escapeOf (bs.drop n)).2 then .lone ((bs.drop n).take (escapeOf (bs.drop n)).1)
        else .kept ((bs.drop n).take (escapeOf (bs.drop n)).1)) ::
        pieces (bs.drop (n + (escapeOf (bs.drop n)).1)) := by
  have head : bs.drop n = 0x5c :: bs.drop (n + 1) := by
    rw [List.drop_eq_getElem_cons (List.getElem?_eq_some_iff.1 here).1,
      (List.getElem?_eq_some_iff.1 here).2]
  rw [← List.drop_drop, head, pieces, if_neg (not_not.2 rfl)]

/-- **The scan of every byte writes the pieces** that are left, behind what is written. -/
theorem byTheByte_spec (sound : Sound json s) :
    ∃ s' out, byTheByte json s = some s' ∧ finish json s' = some out ∧
      bytes (out.getD json) =
        doneOf json s ++ (pieces ((bytes json).drop s.at_)).flatMap Piece.written ∧
      (out = none ↔ s.fixed = none ∧
        ∀ p ∈ pieces ((bytes json).drop s.at_), p.isLone = false) := by
  fun_induction byTheByte json s with
  | case1 s end_ =>
    have far := List.getElem?_eq_none_iff.1 end_
    have rest : pieces ((bytes json).drop s.at_) = [] := by
      rw [List.drop_of_length_le far, pieces]
    have done : doneOf json s = bytes (s.fixed.getD []) ++ (bytes json).drop s.copied := by
      rw [doneOf, List.take_of_length_le far]
    rw [rest, done, List.flatMap_nil, List.append_nil]
    refine ⟨s, ?_⟩
    unfold finish
    cases fixed : s.fixed with
    | none =>
      refine ⟨none, rfl, rfl, ?_, iff_of_true rfl ⟨rfl, fun p one => absurd one List.not_mem_nil⟩⟩
      rw [sound.plain fixed]
      rfl
    | some out =>
      have upto : s.copied ≤ size json := by
        obtain ⟨a, b, whole, width⟩ := sound.between
        rw [whole, size_append]
        omega
      obtain ⟨kept, cut, kept_⟩ := slice_bytes sound.between (between_size json) upto
      dsimp only
      rw [cut]
      refine ⟨_, rfl, rfl, ?_, iff_of_false (fun none_ => by cases none_)
        fun both => by cases both.1⟩
      rw [Option.getD_some, bytes_append, kept_, Option.getD_some, ← length_bytes, List.take_length]
  | case2 s b here plain ih =>
    have bound := (List.getElem?_eq_some_iff.1 here).1
    obtain ⟨s', out, run, done, written, changed⟩ := ih (sound.on 1)
    refine ⟨s', out, run, done, ?_, ?_⟩
    · rw [written, doneOf_on 1 sound.upto (Nat.le_of_lt bound), pieces_plain here plain,
        List.flatMap_cons, List.append_assoc, List.drop_eq_getElem_cons bound,
        (List.getElem?_eq_some_iff.1 here).2]
      rfl
    · rw [changed, pieces_plain here plain]
      refine and_congr Iff.rfl ⟨fun all p one => ?_, fun all p one => ?_⟩
      · rcases List.mem_cons.1 one with rfl | one
        · rfl
        · exact all p one
      · exact all p (List.mem_cons_of_mem _ one)
  | case3 s b here escape stuck =>
    rw [not_not.1 escape] at here
    obtain ⟨s', turn, -⟩ := atEscape_spec sound here
    rw [stuck] at turn
    cases turn
  | case4 s b here escape s' turn ih =>
    rw [not_not.1 escape] at here
    obtain ⟨s₁, turn₁, sound', at_, changed, done₁⟩ := atEscape_spec sound here
    rw [turn] at turn₁
    cases turn₁
    obtain ⟨s₂, out, run, done, written, changed'⟩ := ih sound'
    refine ⟨s₂, out, run, done, ?_, ?_⟩
    · rw [written, done₁, pieces_escape here, List.flatMap_cons, List.append_assoc, at_]
      split
      · rfl
      · rfl
    · rw [changed', changed, pieces_escape here, at_, and_assoc, List.forall_mem_cons]
      refine and_congr Iff.rfl (and_congr ?_ Iff.rfl)
      split
      · rename_i lone
        rw [lone]
        exact iff_of_false (by decide) fun kept => by cases kept
      · rename_i other
        exact iff_of_true (Bool.eq_false_iff.2 other) rfl

/-! ## 5. The two scans -/

theorem byTheByte_plain (here : (bytes json)[s.at_]? = some b) (plain : b ≠ 0x5c) :
    byTheByte json s = byTheByte json { s with at_ := s.at_ + 1 } := by
  conv_lhs => rw [byTheByte]
  split
  · rename_i end_
    rw [here] at end_
    cases end_
  · rename_i b' here'
    cases here.symm.trans here'
    rw [if_pos plain]

/-- Bytes that are no backslash are gone by. -/
theorem byTheByte_skip (n : Nat) (inside : s.at_ + n ≤ (bytes json).length)
    (plain : ∀ k < n, (bytes json)[s.at_ + k]? ≠ some 0x5c) :
    byTheByte json s = byTheByte json { s with at_ := s.at_ + n } := by
  induction n with
  | zero => rfl
  | succ n ih =>
    rw [ih (by omega) fun k less => plain k (Nat.lt_succ_of_lt less)]
    have bound : s.at_ + n < (bytes json).length := by omega
    have here : (bytes json)[s.at_ + n]? = some (bytes json)[s.at_ + n] :=
      List.getElem?_eq_getElem bound
    have other := plain n (Nat.lt_succ_self n)
    rw [here] at other
    exact byTheByte_plain (s := { s with at_ := s.at_ + n }) here fun same =>
      other (congrArg some same)

/-- Where no backslash is left, neither scan changes anything. -/
theorem byTheByte_quiet (quiet : memchr 0x5c ((bytes json).drop s.at_) = none) :
    (byTheByte json s).bind (finish json) = finish json s := by
  have out : ∀ {bs : List UInt8}, memchr 0x5c bs = none →
      ∀ k : Nat, bs[k]? ≠ some 0x5c := by
    intro bs
    induction bs with
    | nil => exact fun _ k here => by cases here
    | cons x rest ih =>
      intro none_ k
      rw [memchr] at none_
      split at none_
      · cases none_
      · rename_i other
        cases k with
        | zero => exact fun same => other (Option.some.inj same)
        | succ k => exact ih (Option.map_eq_none_iff.1 none_) k
  have plain : ∀ k, s.at_ ≤ k → (bytes json)[k]? ≠ some 0x5c := by
    intro k behind here
    refine out quiet (k - s.at_) ?_
    rw [List.getElem?_drop, Nat.add_sub_cancel' behind]
    exact here
  clear quiet
  fun_induction byTheByte json s with
  | case1 s end_ => rfl
  | case2 s b here other ih =>
    rw [ih fun k behind => plain k (by dsimp only at behind; omega)]
    rfl
  | case3 s b here escape stuck =>
    rw [not_not.1 escape] at here
    exact absurd here (plain s.at_ (Nat.le_refl _))
  | case4 s b here escape s' turn ih =>
    rw [not_not.1 escape] at here
    exact absurd here (plain s.at_ (Nat.le_refl _))

theorem byTheByte_escape (here : (bytes json)[s.at_]? = some 0x5c) :
    byTheByte json s = (atEscape json s).bind (byTheByte json) := by
  conv_lhs => rw [byTheByte]
  split
  · rename_i end_
    rw [here] at end_
    cases end_
  · rename_i b' here'
    cases here.symm.trans here'
    rw [if_neg (not_not.2 rfl)]
    split
    · rename_i turn
      rw [turn]
      rfl
    · rename_i turn
      rw [turn]
      rfl

/-- Both go on at the next backslash. -/
theorem byTheByte_jump {found : Nat} (jump : memchr 0x5c ((bytes json).drop s.at_) = some found) :
    byTheByte json s =
      (atEscape json { s with at_ := s.at_ + found }).bind (byTheByte json) := by
  obtain ⟨inside, here, before⟩ := memchr_some jump
  rw [List.length_drop] at inside
  rw [List.getElem?_drop] at here
  rw [byTheByte_skip found (by omega) fun k less => ?_]
  · exact byTheByte_escape here
  · have other := before k less
    rwa [List.getElem?_drop] at other

/-- **The two scans agree.** -/
theorem byJumps_eq (json : List Char) (s : Fixing) :
    (byJumps json s).bind (finish json) = (byTheByte json s).bind (finish json) := by
  fun_induction byJumps json s with
  | case1 s quiet => exact (byTheByte_quiet quiet).symm
  | case2 s found jump stuck =>
    rw [byTheByte_jump jump, stuck]
    rfl
  | case3 s found jump s' turn ih =>
    rw [byTheByte_jump jump, turn, ih]
    rfl

/-- **Lone surrogates are replaced exactly.** For every text, the scan from backslash to backslash
    gives what the scan of every byte does: the text as it was just where it holds no lone
    surrogate's escape, and else its pieces with U+FFFD's escape for each of those. Nothing it gives
    is a lone surrogate's escape again, and it is as long as the text. -/
theorem lone_surrogates_are_replaced (json : List Char) :
    withoutLoneSurrogates json = byTheByteOf json ∧
    ∃ out, withoutLoneSurrogates json = some out ∧
      (out = none ↔ ∀ p ∈ pieces (bytes json), p.isLone = false) ∧
      (pieces (bytes json)).flatMap Piece.own = bytes json ∧
      bytes (out.getD json) = (pieces (bytes json)).flatMap Piece.written ∧
      (∀ p ∈ pieces (bytes (out.getD json)), p.isLone = false) ∧
      size (out.getD json) = size json := by
  have same : withoutLoneSurrogates json = byTheByteOf json := byJumps_eq json {}
  have sound : Sound json {} := ⟨between_zero json, Nat.le_refl 0, fun _ => rfl⟩
  obtain ⟨s', out, run, done, written, changed⟩ := byTheByte_spec sound
  have written : bytes (out.getD json) = (pieces (bytes json)).flatMap Piece.written := written
  have given : byTheByteOf json = some out := by rw [byTheByteOf, run, Option.bind_some, done]
  refine ⟨same, out, same.trans given, ?_, pieces_own _, written, ?_, ?_⟩
  · exact changed.trans (and_iff_right rfl)
  · rw [written]
    exact none_lone _
  · rw [← length_bytes, ← length_bytes, written, written_length]

end ConsensFlow.Surrogates
