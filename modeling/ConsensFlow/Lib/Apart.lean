/-
  File:      ConsensFlow/Lib/Apart.lean
  Subject:   TEXT TAKEN APART AS IT WAS PUT TOGETHER: what the operations of `Lib.Text` find.

  * `stripPrefix_iff`, `stripSuffix_iff` -- what precedes, and what follows;
  * `First` -- the first place of a separator; **`splitOnce_iff`**: a split is there;
  * `splitAll_joined` -- pieces joined are the pieces split;
  * **`parseI64_toString`** -- a number written reads back.
-/
import ConsensFlow.Lib.Text

namespace Lib.Text

/-! ## 1. Ends -/

variable {p q sep a b cs rest : List Char} {c : Char}

theorem stripPrefix_iff : stripPrefix p cs = some rest ↔ cs = p ++ rest := by
  induction p generalizing cs with
  | nil => exact ⟨fun h => (Option.some.inj h), fun h => congrArg some h⟩
  | cons c p ih =>
    cases cs with
    | nil => exact ⟨fun h => (by cases h), fun h => (by cases h)⟩
    | cons d cs =>
      rw [stripPrefix]
      by_cases same : c = d
      · rw [if_pos same, ih, same]
        exact ⟨fun h => congrArg (d :: ·) h, fun h => (List.cons.inj h).2⟩
      · rw [if_neg same]
        exact ⟨fun h => (by cases h), fun h => absurd (List.cons.inj h).1.symm same⟩

@[simp] theorem stripPrefix_append (p rest : List Char) : stripPrefix p (p ++ rest) = some rest :=
  stripPrefix_iff.2 rfl

theorem stripSuffix_iff : stripSuffix q cs = some rest ↔ cs = rest ++ q := by
  rw [stripSuffix, Option.map_eq_some_iff]
  constructor
  · rintro ⟨back, h, rfl⟩
    rw [stripPrefix_iff] at h
    rw [← List.reverse_reverse cs, h, List.reverse_append, List.reverse_reverse]
  · rintro rfl
    exact ⟨rest.reverse, stripPrefix_iff.2 (List.reverse_append ..), List.reverse_reverse rest⟩

@[simp] theorem stripSuffix_append (rest q : List Char) : stripSuffix q (rest ++ q) = some rest :=
  stripSuffix_iff.2 rfl

theorem stripPrefix_none (h : ∀ rest, cs ≠ p ++ rest) : stripPrefix p cs = none := by
  cases found : stripPrefix p cs with
  | none => rfl
  | some rest => exact absurd (stripPrefix_iff.1 found) (h rest)

/-- Texts that end with different characters have no end in common. -/
theorem stripSuffix_none (differ : ∀ rest, cs ≠ rest ++ q) : stripSuffix q cs = none := by
  cases found : stripSuffix q cs with
  | none => rfl
  | some rest => exact absurd (stripSuffix_iff.1 found) (differ rest)

theorem stripSuffix_last (some_ : q.getLast? = some c) (differ : cs.getLast? ≠ some c) :
    stripSuffix q cs = none := by
  refine stripSuffix_none fun rest same => differ ?_
  rw [same, List.getLast?_append, some_]
  rfl

/-- Texts whose last characters are others end with different texts. -/
theorem stripSuffix_apart {q q' e e' : List Char} {n : Nat} (here : q.reverse.take n = e)
    (there : q'.reverse.take n = e') (long : e.length = n) (long' : e'.length = n) (differ : e ≠ e')
    (cs : List Char) : stripSuffix q (cs ++ q') = none := by
  refine stripSuffix_none fun rest same => differ ?_
  have back := congrArg (fun l => l.reverse.take n) same
  simp only [List.reverse_append] at back
  have enough : n ≤ q.reverse.length := by
    rw [← long, ← here, List.length_take]
    exact Nat.min_le_right _ _
  have enough' : n ≤ q'.reverse.length := by
    rw [← long', ← there, List.length_take]
    exact Nat.min_le_right _ _
  rw [List.take_append_of_le_length enough, List.take_append_of_le_length enough', here,
    there] at back
  exact back.symm

/-- An end that both have takes no part. -/
theorem stripSuffix_append_append (q cs e : List Char) :
    stripSuffix (q ++ e) (cs ++ e) = stripSuffix q cs := by
  have same (rest : List Char) :
      stripSuffix (q ++ e) (cs ++ e) = some rest ↔ stripSuffix q cs = some rest := by
    rw [stripSuffix_iff, stripSuffix_iff, ← List.append_assoc]
    exact List.append_left_inj e
  cases found : stripSuffix q cs with
  | some rest => exact (same rest).2 found
  | none =>
    cases other : stripSuffix (q ++ e) (cs ++ e) with
    | none => rfl
    | some rest =>
      rw [(same rest).1 other] at found
      cases found

/-! ## 2. The first separator -/

/-- `a` is what is before the first `sep`, and `b` what is after it. -/
structure First (sep cs a b : List Char) : Prop where
  here : cs = a ++ (sep ++ b)
  least : ∀ a' b', cs = a' ++ (sep ++ b') → a.length ≤ a'.length

/-- **A text is split at the first separator.** -/
theorem splitOnce_iff : splitOnce sep cs = some (a, b) ↔ First sep cs a b := by
  induction cs generalizing a with
  | nil =>
    rw [splitOnce, Option.map_eq_some_iff]
    constructor
    · rintro ⟨rest, h, same⟩
      cases same
      exact ⟨(stripPrefix_iff (p := sep)).1 h, fun a' b' _ => Nat.zero_le _⟩
    · rintro ⟨here, -⟩
      have none_ := (List.append_eq_nil_iff.1 here.symm).1
      rw [none_] at here
      exact ⟨b, stripPrefix_iff.2 here, by rw [none_]⟩
  | cons c cs ih =>
    rw [splitOnce]
    cases found : stripPrefix sep (c :: cs) with
    | some rest =>
      have there := stripPrefix_iff.1 found
      constructor
      · intro h
        cases h
        exact ⟨there, fun a' b' _ => Nat.zero_le _⟩
      · rintro ⟨here, least⟩
        have none_ := List.length_eq_zero_iff.1 (Nat.le_zero.1 (least [] rest there))
        subst none_
        have same := List.append_cancel_left (there.symm.trans here)
        rw [same]
    | none =>
      show Option.map _ (splitOnce sep cs) = some (a, b) ↔ _
      rw [Option.map_eq_some_iff]
      have later {a' b' : List Char} (here : c :: cs = a' ++ (sep ++ b')) :
          ∃ a'', a' = c :: a'' ∧ cs = a'' ++ (sep ++ b') := by
        cases a' with
        | nil =>
          have found' : stripPrefix sep (c :: cs) = some b' := stripPrefix_iff.2 here
          rw [found] at found'
          cases found'
        | cons d a' =>
          obtain ⟨same, more⟩ := List.cons.inj here
          exact ⟨a', by rw [same], more⟩
      constructor
      · rintro ⟨⟨a', b'⟩, h, same⟩
        cases same
        obtain ⟨here, least⟩ := ih.1 h
        refine ⟨congrArg (c :: ·) here, fun a'' b'' there => ?_⟩
        obtain ⟨e, rfl, more⟩ := later there
        exact Nat.succ_le_succ (least e b'' more)
      · rintro ⟨here, least⟩
        obtain ⟨a', rfl, more⟩ := later here
        refine ⟨(a', b), ih.2 ⟨more, fun a'' b'' there => ?_⟩, rfl⟩
        exact Nat.le_of_succ_le_succ (least (c :: a'') b'' (congrArg (c :: ·) there))

theorem splitOnce_none : splitOnce sep cs = none ↔ ∀ a b, cs ≠ a ++ (sep ++ b) := by
  induction cs with
  | nil =>
    rw [splitOnce, Option.map_eq_none_iff]
    constructor
    · intro none_ a b here
      have empty := (List.append_eq_nil_iff.1 here.symm).1
      rw [empty] at here
      have found : stripPrefix sep [] = some b := stripPrefix_iff.2 here
      rw [none_] at found
      cases found
    · exact fun h => stripPrefix_none fun rest here => h [] rest here
  | cons c cs ih =>
    rw [splitOnce]
    cases found : stripPrefix sep (c :: cs) with
    | some rest => exact ⟨fun h => (by cases h), fun h => absurd (stripPrefix_iff.1 found) (h [] rest)⟩
    | none =>
      show Option.map _ (splitOnce sep cs) = none ↔ _
      rw [Option.map_eq_none_iff, ih]
      constructor
      · intro none_ a b here
        cases a with
        | nil =>
          have found' : stripPrefix sep (c :: cs) = some b := stripPrefix_iff.2 here
          rw [found] at found'
          cases found'
        | cons d a => exact none_ a b (List.cons.inj here).2
      · exact fun h a b here => h (c :: a) b (congrArg (c :: ·) here)

theorem contains_iff : contains sep cs = true ↔ ∃ a b, cs = a ++ (sep ++ b) := by
  unfold contains
  rw [Option.isSome_iff_ne_none, Ne, splitOnce_none]
  push Not
  rfl

theorem contains_eq_false : contains sep cs = false ↔ ∀ a b, cs ≠ a ++ (sep ++ b) := by
  rw [← Bool.not_eq_true, contains_iff]
  push Not
  rfl

/-- What begins with a character that the text before has not is first there. -/
theorem First.of_head (head : sep.head? = some c) (out : c ∉ a) : First sep (a ++ (sep ++ b)) a b where
  here := rfl
  least a' b' there := by
    obtain ⟨more, rfl⟩ : ∃ more, sep = c :: more := by
      cases sep with
      | nil => cases head
      | cons d more =>
        cases head
        exact ⟨more, rfl⟩
    -- else the separator's first character is among the text before
    by_contra less
    refine out ?_
    have at_ : (a ++ (c :: more ++ b))[a'.length]? = some c := by
      rw [there, List.getElem?_append_right (Nat.le_refl _), Nat.sub_self]
      rfl
    rw [List.getElem?_append_left (Nat.lt_of_not_le less)] at at_
    exact List.mem_of_getElem? at_

theorem splitOnce_head (head : sep.head? = some c) (out : c ∉ a) :
    splitOnce sep (a ++ (sep ++ b)) = some (a, b) :=
  splitOnce_iff.2 (.of_head head out)

theorem splitOnce_head_none (head : sep.head? = some c) (out : c ∉ cs) : splitOnce sep cs = none := by
  refine splitOnce_none.2 fun a b here => out ?_
  rw [here]
  refine List.mem_append_right _ (List.mem_append_left _ ?_)
  exact List.mem_of_mem_head? (by rw [head]; rfl)

/-! ### Separators whose first character is nowhere else in them -/

variable {s : List Char}

/-- Such a separator is not across the place of its first character. -/
theorem apart (out : c ∉ s) {a' b' : List Char} (here : a ++ c :: b = a' ++ (c :: s ++ b')) :
    a'.length + (c :: s).length ≤ a.length ∨ a.length ≤ a'.length := by
  by_contra across
  push Not at across
  obtain ⟨past, before⟩ := across
  -- else its first character is one of the others
  obtain ⟨more, rfl⟩ : ∃ more, a = a' ++ more := by
    have front : a' <+: a :=
      List.prefix_of_prefix_length_le ⟨_, rfl⟩ ⟨c :: b, here⟩ (Nat.le_of_lt before)
    obtain ⟨more, same⟩ := front
    exact ⟨more, same.symm⟩
  rw [List.append_assoc, List.append_cancel_left_eq] at here
  cases more with
  | nil => exact absurd before (by rw [List.append_nil]; exact Nat.lt_irrefl _)
  | cons d more =>
    have here : more ++ c :: b = s ++ b' := (List.cons.inj here).2
    rw [List.length_append, List.length_cons, List.length_cons] at past
    have short : more.length < s.length := by omega
    have at_ : (more ++ c :: b)[more.length]? = some c := by
      rw [List.getElem?_append_right (Nat.le_refl _), Nat.sub_self]
      rfl
    rw [here, List.getElem?_append_left short] at at_
    exact out (List.mem_of_getElem? at_)

/-- A separator that ends where `a` does, or before, is in it. -/
theorem within {a' b' : List Char} (here : a ++ b = a' ++ (sep ++ b'))
    (inside : a'.length + sep.length ≤ a.length) : ∃ more, a = a' ++ (sep ++ more) := by
  have front : a' ++ sep <+: a := by
    refine List.prefix_of_prefix_length_le ⟨b', ?_⟩ ⟨b, rfl⟩ ?_
    · rw [List.append_assoc, here]
    · rw [List.length_append]
      exact inside
  obtain ⟨more, same⟩ := front
  exact ⟨more, same.symm.trans (List.append_assoc ..)⟩

/-- What has no such separator is what is before the first of them. -/
theorem First.of_free (out : c ∉ s) (free : contains (c :: s) a = false) :
    First (c :: s) (a ++ (c :: s ++ b)) a b where
  here := rfl
  least a' b' there := by
    rcases apart out (b := s ++ b) there with inside | later
    · obtain ⟨more, same⟩ := within there inside
      exact absurd same (contains_eq_false.1 free a' more)
    · exact later

/-- Two texts put together at its first character have such a separator where one of them has. -/
theorem contains_append (out : c ∉ s) (free : contains (c :: s) a = false)
    (free' : contains (c :: s) (c :: b) = false) : contains (c :: s) (a ++ c :: b) = false := by
  rw [contains_eq_false] at free free' ⊢
  intro a' b' there
  rcases apart out there with inside | later
  · obtain ⟨more, same⟩ := within there inside
    exact free a' more same
  · obtain ⟨more, rfl⟩ : ∃ more, a' = a ++ more := by
      obtain ⟨more, same⟩ := List.prefix_of_prefix_length_le ⟨c :: b, rfl⟩ ⟨_, there.symm⟩ later
      exact ⟨more, same.symm⟩
    rw [List.append_assoc, List.append_cancel_left_eq] at there
    exact free' more b' there

/-! ## 3. Pieces -/

theorem intercalate_length (pieces : List (List Char)) (head : sep.head? = some c) :
    pieces.length ≤ (sep.intercalate pieces).length + 1 := by
  induction pieces with
  | nil => exact Nat.zero_le _
  | cons piece pieces ih =>
    cases pieces with
    | nil => exact Nat.le_add_left 1 _
    | cons next pieces =>
      have some_ : 0 < sep.length := by
        cases sep with
        | nil => cases head
        | cons d more => exact Nat.succ_pos _
      rw [List.intercalate_cons_cons, List.length_append, List.length_append, List.length_cons]
      omega

theorem splitFuel_joined {pieces : List (List Char)} (head : sep.head? = some c) (some_ : pieces ≠ [])
    (out : ∀ piece ∈ pieces, c ∉ piece) {fuel : Nat} (enough : pieces.length ≤ fuel + 1) :
    splitFuel sep fuel (sep.intercalate pieces) = pieces := by
  induction pieces generalizing fuel with
  | nil => exact absurd rfl some_
  | cons piece pieces ih =>
    have here := out piece List.mem_cons_self
    cases pieces with
    | nil =>
      rw [List.intercalate_singleton]
      cases fuel with
      | zero => rfl
      | succ fuel => rw [splitFuel, splitOnce_head_none head here]
    | cons next pieces =>
      cases fuel with
      | zero =>
        have two : pieces.length + 2 ≤ 1 := enough
        omega
      | succ fuel =>
        rw [List.intercalate_cons_cons, List.append_assoc, splitFuel, splitOnce_head head here]
        show piece :: splitFuel sep fuel (sep.intercalate (next :: pieces)) = _
        rw [ih (List.cons_ne_nil _ _) (fun p one => out p (List.mem_cons_of_mem _ one))
          (Nat.le_of_succ_le_succ enough)]

/-- **Pieces joined are the pieces split**, where none has the separator's first character. -/
theorem splitAll_joined {pieces : List (List Char)} (head : sep.head? = some c) (some_ : pieces ≠ [])
    (out : ∀ piece ∈ pieces, c ∉ piece) : splitAll sep (sep.intercalate pieces) = pieces := by
  cases sep with
  | nil => cases head
  | cons d more =>
    refine splitFuel_joined head some_ out (Nat.le_trans (intercalate_length pieces head) ?_)
    exact Nat.le_refl _

/-- A text not begun by a separator has it where the text after its first character has. -/
theorem contains_cons {d : Char} (here : stripPrefix sep (d :: cs) = none)
    (free : contains sep cs = false) : contains sep (d :: cs) = false := by
  unfold contains at free ⊢
  rw [splitOnce, here]
  dsimp only
  rw [Option.isSome_map, free]

theorem contains_head (head : sep.head? = some c) (out : c ∉ cs) : contains sep cs = false := by
  unfold contains
  rw [splitOnce_head_none head out]
  rfl

theorem splitFuel_some (fuel : Nat) (cs : List Char) : splitFuel sep fuel cs ≠ [] := by
  cases fuel with
  | zero => exact List.cons_ne_nil _ _
  | succ fuel =>
    rw [splitFuel]
    cases splitOnce sep cs with
    | none => exact List.cons_ne_nil _ _
    | some parts => exact List.cons_ne_nil _ _

/-- What is not in a separator, nor in any piece, is not in the pieces joined. -/
theorem mem_intercalate {c : Char} {sep : List Char} {pieces : List (List Char)}
    (one : c ∈ sep.intercalate pieces) : c ∈ sep ∨ ∃ piece ∈ pieces, c ∈ piece := by
  induction pieces with
  | nil => cases one
  | cons piece pieces ih =>
    by_cases none_ : pieces = []
    · rw [none_, List.intercalate_singleton] at one
      exact Or.inr ⟨piece, List.mem_cons_self, one⟩
    · rw [List.intercalate_cons_of_ne_nil none_] at one
      rcases List.mem_append.1 one with one | one
      · rcases List.mem_append.1 one with one | one
        · exact Or.inr ⟨piece, List.mem_cons_self, one⟩
        · exact Or.inl one
      · rcases ih one with here | ⟨p, there, here⟩
        · exact Or.inl here
        · exact Or.inr ⟨p, List.mem_cons_of_mem _ there, here⟩

/-! ## 4. Numbers -/

theorem digits_eq (cs : List Char) (all : ∀ c ∈ cs, c.isDigit = true) (acc : Nat) :
    digits acc cs = some (Nat.ofDigitChars 10 cs acc) := by
  induction cs generalizing acc with
  | nil => rfl
  | cons c cs ih =>
    rw [digits, if_pos (all c List.mem_cons_self), ih (fun d one => all d (List.mem_cons_of_mem _ one)),
      Nat.ofDigitChars_cons, Nat.mul_comm]

theorem isDigit_of_repr {n : Nat} (one : c ∈ (Nat.repr n).toList) : c.isDigit = true := by
  rw [Nat.toList_repr] at one
  exact Nat.isDigit_of_mem_toDigits (by decide) (by decide) one

theorem digits_repr (n : Nat) : digits 0 (Nat.repr n).toList = some n := by
  rw [digits_eq _ fun c one => isDigit_of_repr one, Nat.toList_repr, Nat.ofDigitChars_ten_toDigits]

theorem repr_cons (n : Nat) : ∃ c cs, (Nat.repr n).toList = c :: cs ∧ c.isDigit = true := by
  cases written : (Nat.repr n).toList with
  | nil =>
    rw [Nat.toList_repr] at written
    exact absurd written Nat.toDigits_ne_nil
  | cons c cs => exact ⟨c, cs, rfl, isDigit_of_repr (by rw [written]; exact List.mem_cons_self)⟩

/-- What an `i64` may be. -/
def InI64 (n : Int) : Prop := -2 ^ 63 ≤ n ∧ n < 2 ^ 63

/-- **A number written reads back.** -/
theorem parseI64_toString {n : Int} (h : InI64 n) : parseI64 (toString n).toList = some n := by
  obtain ⟨low, high⟩ := h
  cases n with
  | ofNat m =>
    have written : (toString (Int.ofNat m)).toList = (Nat.repr m).toList := rfl
    obtain ⟨c, cs, first, digit⟩ := repr_cons m
    have value := digits_repr m
    rw [written, first]
    rw [first] at value
    have fits : m < 2 ^ 63 := by
      have high : (m : Int) < 2 ^ 63 := high
      omega
    have plain : parseI64 (c :: cs) =
        (digits 0 (c :: cs)).bind fun n => if n < 2 ^ 63 then some (n : Int) else none := by
      rw [parseI64.eq_def]
      split
      · rename_i same
        cases same
      · rename_i same
        rw [(List.cons.inj same).1] at digit
        exact absurd digit (by decide)
      · rename_i same
        rw [(List.cons.inj same).1] at digit
        exact absurd digit (by decide)
      · rfl
    rw [plain, value]
    exact if_pos fits
  | negSucc m =>
    have written : (toString (Int.negSucc m)).toList = '-' :: (Nat.repr (m + 1)).toList := by
      show ("-" ++ Nat.repr (m + 1)).toList = _
      rw [String.toList_append]
      rfl
    obtain ⟨c, cs, first, digit⟩ := repr_cons (m + 1)
    have value := digits_repr (m + 1)
    rw [first] at value
    have fits : m + 1 ≤ 2 ^ 63 := by
      have low : -2 ^ 63 ≤ -((m : Int) + 1) := low
      omega
    rw [written, first]
    show ((digits 0 (c :: cs)).bind fun n => if n ≤ 2 ^ 63 then some (-(n : Int)) else none) = _
    rw [value]
    exact if_pos fits

/-- A number read is one. -/
theorem parseI64_in {n : Int} (h : parseI64 cs = some n) : InI64 n := by
  have below {m : Nat} (less : m < 2 ^ 63) : InI64 m := by
    constructor <;> omega
  have negative {m : Nat} (least : m ≤ 2 ^ 63) : InI64 (-(m : Int)) := by
    constructor <;> omega
  rw [parseI64.eq_def] at h
  split at h
  · cases h
  all_goals
    obtain ⟨m, -, h⟩ := Option.bind_eq_some_iff.1 h
    obtain ⟨fits, same⟩ := Option.ite_none_right_eq_some.1 h
    cases same
  · exact negative fits
  · exact below fits
  · exact below fits

/-- What a number is written with. -/
theorem mem_toString {n : Int} (one : c ∈ (toString n).toList) : c = '-' ∨ c.isDigit = true := by
  cases n with
  | ofNat m => exact Or.inr (isDigit_of_repr one)
  | negSucc m =>
    have one : c ∈ ("-" ++ Nat.repr (m + 1)).toList := one
    rw [String.toList_append] at one
    rcases List.mem_append.1 one with one | one
    · exact Or.inl (List.mem_singleton.1 one)
    · exact Or.inr (isDigit_of_repr one)

/-! ## 5. Numbers in a row -/

/-- Numbers in a row, `lead` before each. -/
def numbered (lead : List Char) (ns : List Int) : List Char :=
  ", ".toList.intercalate (ns.map fun n => lead ++ (toString n).toList)

variable {lead : List Char} {n : Int} {ns : List Int}

theorem numbered_cons_cons (lead : List Char) (n m : Int) (ns : List Int) :
    numbered lead (n :: m :: ns) =
      lead ++ ((toString n).toList ++ ',' :: ' ' :: numbered lead (m :: ns)) := by
  unfold numbered
  rw [List.map_cons, List.map_cons, List.intercalate_cons_cons, List.append_assoc, List.append_assoc]
  rfl

/-- What is in no part of a row is not in it. -/
theorem numbered_out (between : c ∉ ", ".toList) (front : c ∉ lead) (sign : c ≠ '-')
    (digit : c.isDigit = false) : c ∉ numbered lead ns := by
  intro one
  rcases mem_intercalate one with here | ⟨piece, there, here⟩
  · exact between here
  · obtain ⟨n, -, rfl⟩ := List.mem_map.1 there
    rcases List.mem_append.1 here with here | here
    · exact front here
    · rcases mem_toString here with same | digit'
      · exact sign same
      · rw [digit] at digit'
        cases digit'

theorem splitAll_numbered (front : ',' ∉ lead) (some_ : ns ≠ []) :
    splitAll ", ".toList (numbered lead ns) = ns.map fun n => lead ++ (toString n).toList := by
  refine splitAll_joined (c := ',') rfl (fun h => some_ (List.map_eq_nil_iff.1 h)) ?_
  intro piece there comma
  obtain ⟨n, -, rfl⟩ := List.mem_map.1 there
  rcases List.mem_append.1 comma with here | here
  · exact front here
  · rcases mem_toString here with same | digit
    · cases same
    · exact absurd digit (by decide)

/-- A number of a row reads back. -/
theorem read_numbered (in_ : InI64 n) :
    (stripPrefix lead (lead ++ (toString n).toList)).bind parseI64 = some n := by
  rw [stripPrefix_append, Option.bind_some, parseI64_toString in_]

end Lib.Text
