/-
  File:      ConsensFlow/Processes/Runnable.lean
  Subject:   ARGUMENTS ON A LINE OF CMD.EXE (`cf-process`: `runnable.rs`: `caret`, `quoted`, and the
             line `runnable` writes for a script).

  * `caret`, `quoted`, `scriptLine` -- from the source;
  * `cmdReads` -- a line as cmd.exe reads it; `argvFrom` -- a line as a Windows program splits it;
  * `cmdLine_caret`, `argvFrom_inner` -- each reading undoes what was written for it;
  * **`arguments_survive`** -- the words read are the arguments, and no special character but the
    spaces between them is read as one.
-/
import Mathlib

namespace Processes.Runnable

/-! ## 1. The line -/

/-- cmd.exe's own special characters. -/
def cmdMeta : List Char :=
  ['(', ')', '[', ']', '%', '!', '^', '"', '\x60', '<', '>', '&', '|', ';', ',', ' ', '*', '?']

/-- Each special character behind a caret. -/
def caret (text : List Char) : List Char :=
  text.flatMap fun c => if c ∈ cmdMeta then ['^', c] else [c]

/-- An argument between its quotes, of which so many backslashes were read and none written. -/
def innerFrom (backslashes : Nat) : List Char → List Char
  | [] => List.replicate (backslashes * 2) '\\'
  | c :: rest =>
    if c = '\\' then innerFrom (backslashes + 1) rest
    else if c = '"' then List.replicate (backslashes * 2 + 1) '\\' ++ '"' :: innerFrom 0 rest
    else List.replicate backslashes '\\' ++ c :: innerFrom 0 rest

/-- An argument as a program reads it from its line. -/
def word (arg : List Char) : List Char := '"' :: (innerFrom 0 arg ++ ['"'])

/-- And as it reads it from a script's, behind cmd.exe. -/
def quoted (arg : List Char) : List Char := caret (caret (word arg))

def joined (words : List (List Char)) : List Char := [' '].intercalate words

/-- cmd.exe's line for a script. -/
def scriptLine (name : List Char) (args : List (List Char)) : List Char :=
  joined (caret name :: args.map quoted)

/-! ## 2. The readings -/

/-- A line as cmd.exe reads it, in a quoted run or not, behind a caret or not: each character, and
    whether a caret gave it as itself. In a quoted run no caret is one. -/
def cmdReads (inQuotes behindCaret : Bool) : List Char → List (Char × Bool)
  | [] => []
  | c :: rest =>
    if behindCaret then (c, true) :: cmdReads inQuotes false rest
    else if c = '^' ∧ inQuotes = false then cmdReads inQuotes true rest
    else if c = '"' then (c, false) :: cmdReads (!inQuotes) false rest
    else (c, false) :: cmdReads inQuotes false rest

/-- The line read, from its start. -/
def cmdLine (line : List Char) : List (Char × Bool) := cmdReads false false line

/-- The text it is left with. -/
def cmdText (line : List Char) : List Char := (cmdLine line).map Prod.fst

/-- Where a program is in its line: in a word or between two, in a quoted run or not, behind how many
    backslashes, and what it has of the word without them. -/
structure Reader where
  inWord : Bool := false
  inQuotes : Bool := false
  slashes : Nat := 0
  word : List Char := []

def Reader.whole (r : Reader) : List Char := r.word ++ List.replicate r.slashes '\\'

/-- A line as a Windows program splits it. -/
def argvFrom (r : Reader) : List Char → List (List Char)
  | [] => if r.inWord then [r.whole] else []
  | c :: rest =>
    if c = '\\' then argvFrom { r with inWord := true, slashes := r.slashes + 1 } rest
    else if c = '"' then
      if r.slashes % 2 = 0 then
        argvFrom { inWord := true, inQuotes := !r.inQuotes,
                   word := r.word ++ List.replicate (r.slashes / 2) '\\' } rest
      else
        argvFrom { inWord := true, inQuotes := r.inQuotes,
                   word := r.word ++ List.replicate (r.slashes / 2) '\\' ++ ['"'] } rest
    else if (c = ' ' ∨ c = '\t') ∧ r.inQuotes = false then
      if r.inWord then r.whole :: argvFrom {} rest else argvFrom {} rest
    else argvFrom { inWord := true, inQuotes := r.inQuotes, word := r.whole ++ [c] } rest

def argv (line : List Char) : List (List Char) := argvFrom {} line

/-! ## 3. What cmd.exe reads -/

variable {text rest : List Char}

/-- What a caret gives, and what needs none. -/
def marks (text : List Char) : List (Char × Bool) := text.map fun c => (c, decide (c ∈ cmdMeta))

/-- **Text behind its carets is read as it was**, and no quoted run is opened by it. -/
theorem cmdLine_caret (text rest : List Char) :
    cmdLine (caret text ++ rest) = marks text ++ cmdLine rest := by
  unfold cmdLine
  induction text with
  | nil => rfl
  | cons c text ih =>
    unfold caret marks at ih ⊢
    rw [List.flatMap_cons, List.map_cons, List.append_assoc]
    by_cases special : c ∈ cmdMeta
    · rw [if_pos special, decide_eq_true special]
      rw [List.cons_append, List.singleton_append, cmdReads, if_neg (by decide),
        if_pos ⟨rfl, rfl⟩, cmdReads, if_pos rfl, ih]
      rfl
    · have plain : ¬(c = '^' ∧ (false : Bool) = false) := by
        rintro ⟨rfl, -⟩
        exact special (by decide)
      have other : c ≠ '"' := by
        rintro rfl
        exact special (by decide)
      rw [if_neg special, List.singleton_append, cmdReads, if_neg (by decide), if_neg plain,
        if_neg other, ih, decide_eq_false special]
      rfl

/-- **Words behind their carets are read as they were**, and the spaces between them as they stand. -/
theorem cmdLine_joined (words : List (List Char)) :
    cmdLine (joined (words.map caret)) = [(' ', false)].intercalate (words.map marks) := by
  unfold joined
  induction words with
  | nil => rfl
  | cons first more ih =>
    have space (rest : List Char) : cmdLine ([' '] ++ rest) = [(' ', false)] ++ cmdLine rest := rfl
    by_cases none_ : more = []
    · have alone := cmdLine_caret first []
      rw [List.append_nil] at alone
      rw [none_, List.map_cons, List.map_nil, List.intercalate_singleton, alone, List.map_cons,
        List.map_nil, List.intercalate_singleton]
      exact List.append_nil _
    · have some_ : more.map caret ≠ [] := by simpa using none_
      have some' : more.map marks ≠ [] := by simpa using none_
      rw [List.map_cons, List.intercalate_cons_of_ne_nil some_, List.append_assoc, cmdLine_caret,
        space, ih, List.map_cons, List.intercalate_cons_of_ne_nil some', List.append_assoc]

theorem map_intercalate {α β : Type} (f : α → β) (sep : List α) (words : List (List α)) :
    (sep.intercalate words).map f = (sep.map f).intercalate (words.map (List.map f)) := by
  induction words with
  | nil => rfl
  | cons first more ih =>
    by_cases none_ : more = []
    · rw [none_, List.intercalate_singleton, List.map_cons, List.map_nil,
        List.intercalate_singleton]
    · have some_ : more.map (List.map f) ≠ [] := by simpa using none_
      rw [List.intercalate_cons_of_ne_nil none_, List.map_append, List.map_append, ih,
        List.map_cons, List.intercalate_cons_of_ne_nil some_]

theorem cmdText_joined (words : List (List Char)) :
    cmdText (joined (words.map caret)) = joined words := by
  have own : words.map (List.map Prod.fst ∘ marks) = words := by
    have same : List.map Prod.fst ∘ marks = id := by
      funext text
      rw [Function.comp_apply, marks, List.map_map]
      exact List.map_id _
    rw [same, List.map_id]
  rw [cmdText, cmdLine_joined, map_intercalate, List.map_map, own]
  rfl

/-- A line in which no special character is read as one, but for the spaces between its words. -/
def OnlySpaces (line : List Char) (words : Nat) : Prop :=
  ∃ read : List (List (Char × Bool)), read.length = words ∧
    cmdLine line = [(' ', false)].intercalate read ∧
    ∀ word ∈ read, ∀ mark ∈ word, mark.1 ∈ cmdMeta → mark.2 = true

theorem onlySpaces_joined (words : List (List Char)) :
    OnlySpaces (joined (words.map caret)) words.length := by
  refine ⟨words.map marks, List.length_map _, cmdLine_joined words, fun word one mark in_ => ?_⟩
  obtain ⟨text, -, rfl⟩ := List.mem_map.1 one
  obtain ⟨c, -, rfl⟩ := List.mem_map.1 in_
  exact decide_eq_true

/-! ## 4. What the program reads -/

theorem argvFrom_slashes (n : Nat) {r : Reader} (inWord : r.inWord = true) (rest : List Char) :
    argvFrom r (List.replicate n '\\' ++ rest) =
      argvFrom { r with slashes := r.slashes + n } rest := by
  induction n generalizing r with
  | zero => rfl
  | succ n ih =>
    rw [List.replicate_succ, List.cons_append, argvFrom, if_pos rfl, ih rfl]
    have count : r.slashes + 1 + n = r.slashes + (n + 1) := by omega
    rw [inWord, ← count]

/-- **What stands between the quotes of an argument is read as the argument.** -/
theorem argvFrom_inner (arg have_ rest : List Char) (n : Nat) :
    argvFrom { inWord := true, inQuotes := true, word := have_ } (innerFrom n arg ++ '"' :: rest) =
      argvFrom { inWord := true, word := have_ ++ List.replicate n '\\' ++ arg } rest := by
  induction arg generalizing have_ n with
  | nil =>
    rw [innerFrom, argvFrom_slashes _ rfl, argvFrom, if_neg (by decide), if_pos rfl]
    dsimp only
    have even : (0 + n * 2) % 2 = 0 := by omega
    have half : (0 + n * 2) / 2 = n := by omega
    rw [if_pos even, half, List.append_nil]
    rfl
  | cons c arg ih =>
    rw [innerFrom]
    by_cases slash : c = '\\'
    · rw [if_pos slash, ih, List.replicate_succ', slash]
      simp only [List.append_assoc, List.cons_append, List.nil_append]
    rw [if_neg slash]
    by_cases quote : c = '"'
    · rw [if_pos quote, List.append_assoc, argvFrom_slashes _ rfl, List.cons_append, argvFrom,
        if_neg (by decide), if_pos rfl]
      dsimp only
      have odd : ¬(0 + (n * 2 + 1)) % 2 = 0 := by omega
      have half : (0 + (n * 2 + 1)) / 2 = n := by omega
      rw [if_neg odd, half, ih, quote]
      simp only [List.append_assoc, List.cons_append, List.nil_append, List.replicate_zero]
    · rw [if_neg quote, List.append_assoc, argvFrom_slashes _ rfl, List.cons_append, argvFrom,
        if_neg slash, if_neg quote, if_neg (by simp)]
      dsimp only [Reader.whole]
      rw [ih, Nat.zero_add]
      simp only [List.append_assoc, List.cons_append, List.nil_append, List.replicate_zero]

/-- **The words on a line are the arguments.** -/
theorem argv_joined (args : List (List Char)) : argv (joined (args.map word)) = args := by
  have first (arg rest : List Char) : argvFrom {} (word arg ++ rest) =
      argvFrom { inWord := true, word := arg } rest := by
    have inner := argvFrom_inner arg [] rest 0
    rw [List.replicate_zero, List.append_nil, List.nil_append] at inner
    rw [← inner, word, List.cons_append, List.append_assoc]
    rfl
  unfold argv joined
  induction args with
  | nil => rfl
  | cons arg args ih =>
    by_cases none_ : args = []
    · have alone := first arg []
      rw [List.append_nil] at alone
      rw [none_, List.map_cons, List.map_nil, List.intercalate_singleton, alone, argvFrom,
        if_pos rfl, Reader.whole]
      simp
    · have some_ : args.map word ≠ [] := by simpa using none_
      rw [List.map_cons, List.intercalate_cons_of_ne_nil some_, List.append_assoc, first,
        List.singleton_append, argvFrom, if_neg (by decide), if_neg (by decide),
        if_pos ⟨.inl rfl, rfl⟩, if_pos rfl, ih, Reader.whole]
      simp

/-- **Arguments survive cmd.exe and cannot leave it.** For every list of arguments, the words
    written for them, joined by spaces, are read twice by cmd.exe and split by the program into the
    arguments themselves; and at neither reading is any of cmd.exe's special characters read as one
    but the spaces between the words. So it is on the whole line of a script at the first. -/
theorem arguments_survive (args : List (List Char)) :
    argv (cmdText (cmdText (joined (args.map quoted)))) = args ∧
    OnlySpaces (joined (args.map quoted)) args.length ∧
    OnlySpaces (cmdText (joined (args.map quoted))) args.length ∧
    ∀ name, OnlySpaces (scriptLine name args) (args.length + 1) := by
  have twice : args.map quoted = (args.map fun arg => caret (word arg)).map caret := by
    rw [List.map_map]
    rfl
  have once : (args.map fun arg => caret (word arg)) = (args.map word).map caret := by
    rw [List.map_map]
    rfl
  have second : cmdText (joined (args.map quoted)) = joined ((args.map word).map caret) := by
    rw [twice, cmdText_joined, once]
  refine ⟨?_, ?_, ?_, fun name => ?_⟩
  · rw [second, cmdText_joined, argv_joined]
  · have only := onlySpaces_joined (args.map fun arg => caret (word arg))
    rwa [← twice, List.length_map] at only
  · have only := onlySpaces_joined (args.map word)
    rwa [← second, List.length_map] at only
  · have only := onlySpaces_joined (name :: args.map fun arg => caret (word arg))
    rwa [List.map_cons, ← twice, List.length_cons, List.length_map] at only

/-- Quotes, backslashes at the end, carets and nothing at all. -/
example : argv (cmdText (cmdText (joined (["a\\\"b\\".toList, [], "^&%".toList].map quoted)))) =
    ["a\\\"b\\".toList, [], "^&%".toList] := by decide

end Processes.Runnable
