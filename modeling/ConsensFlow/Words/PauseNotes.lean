/-
  File:      ConsensFlow/Words/PauseNotes.lean
  Subject:   PAUSE NOTES READ BACK (`messages/pauses.rs`, `render` and `read`).

  * `toList_clause`, `ending` -- a clause as characters, and the character each way on ends with;
  * `readClause_clause` -- a clause reads back, whatever the words of the pause;
  * `read_one`, `read_many` -- the note of one task, and of several;
  * **`pause_notes_read_back`** -- what is written reads back, and what is read writes that text.
-/
import ConsensFlow.Lib.Apart
import ConsensFlow.Notes

namespace ConsensFlow

open Lib.Text

namespace Paused

/-! ## 1. A clause -/

def pausedWords : List Char := " is paused: ".toList

/-- The way on, after the words of the pause. -/
def wayChars (number : Int) (way : Way) : List Char := (s!". {wayOn number way}").toList

/-- A clause, as characters. -/
theorem toList_clause (p : Paused) : p.clause.toList = "T-".toList ++ ((toString p.number).toList ++
    (pausedWords ++ (p.because.toList ++ wayChars p.number p.way))) := by
  unfold clause wayChars pausedWords
  simp only [String.toList_append, toString, List.append_assoc]

/-- Whether `c` is what a way on ends with. -/
def ends (way : Way) (c : Char) : Bool :=
  match way with
  | .resume => c == '"'
  | .gone => c.isDigit
  | .held => c == 't'

theorem getLast?_repr (n : Int) : ∃ c, (toString n).toList.getLast? = some c ∧ c.isDigit = true := by
  have last (m : Nat) : ∃ c, (Nat.repr m).toList.getLast? = some c ∧ c.isDigit = true := by
    obtain ⟨c, cs, first, -⟩ := repr_cons m
    have some_ : (Nat.repr m).toList ≠ [] := by
      rw [first]
      exact List.cons_ne_nil _ _
    exact ⟨_, List.getLast?_eq_some_getLast some_, isDigit_of_repr (List.getLast_mem some_)⟩
  cases n with
  | ofNat m => exact last m
  | negSucc m =>
    obtain ⟨c, there, digit⟩ := last (m + 1)
    refine ⟨c, ?_, digit⟩
    show ("-" ++ Nat.repr (m + 1)).toList.getLast? = _
    rw [String.toList_append, List.getLast?_append, there]
    rfl

theorem getLast?_append {a b : String} {c : Char} (last : b.toList.getLast? = some c) :
    (a ++ b).toList.getLast? = some c := by
  rw [String.toList_append, List.getLast?_append, last]
  rfl

/-- The last character of a way on. -/
theorem getLast?_wayChars (number : Int) (way : Way) :
    ∃ c, (wayChars number way).getLast? = some c ∧ ends way c = true := by
  have way_on : ∃ c, (wayOn number way).toList.getLast? = some c ∧ ends way c = true := by
    cases way with
    | resume => exact ⟨'"', getLast?_append (b := toString " \"…\"") rfl, rfl⟩
    | gone =>
      obtain ⟨c, last, digit⟩ := getLast?_repr number
      exact ⟨c, getLast?_append last, digit⟩
    | held => exact ⟨'t', getLast?_append (b := toString " \"…\", or cancel it") rfl, rfl⟩
  obtain ⟨c, last, end_⟩ := way_on
  exact ⟨c, getLast?_append last, end_⟩

theorem ends_other {way other : Way} {c : Char} (here : ends way c = true)
    (there : ends other c = true) : way = other := by
  have quote : ('"' : Char).isDigit = false := by decide
  have letter : ('t' : Char).isDigit = false := by decide
  cases way <;> cases other <;> simp_all [ends]

/-! ## 2. A clause read back -/

/-- The words before a way on are those of that way on, and of no other. -/
theorem stripSuffix_wayChars (number : Int) (because : List Char) (way other : Way) :
    stripSuffix (wayChars number other) (because ++ wayChars number way) =
      if way = other then some because else none := by
  by_cases same : way = other
  · rw [if_pos same, same, stripSuffix_append]
  · rw [if_neg same]
    obtain ⟨c, last, end_⟩ := getLast?_wayChars number way
    obtain ⟨d, last', end'⟩ := getLast?_wayChars number other
    refine stripSuffix_last last' fun both => same ?_
    rw [List.getLast?_append, last] at both
    cases both
    exact ends_other end_ end'

/-- **A clause reads back.** -/
theorem readClause_clause (p : Paused) (in_ : InI64 p.number) : readClause p.clause.toList = some p := by
  have out : ' ' ∉ (toString p.number).toList := by
    intro one
    rcases mem_toString one with same | digit
    · cases same
    · exact absurd digit (by decide)
  have parts : splitOnce " is paused: ".toList ((toString p.number).toList ++
      (pausedWords ++ (p.because.toList ++ wayChars p.number p.way))) =
      some ((toString p.number).toList, p.because.toList ++ wayChars p.number p.way) :=
    splitOnce_head (c := ' ') rfl out
  have found : [Way.resume, .gone, .held].findSome? (fun way =>
      (stripSuffix (wayChars p.number way) (p.because.toList ++ wayChars p.number p.way)).map
        fun because => ({ number := p.number, because := String.ofList because, way } : Paused)) =
      some p := by
    simp only [stripSuffix_wayChars]
    obtain ⟨number, because, way⟩ := p
    cases way <;> simp [List.findSome?, String.ofList_toList]
  rw [readClause, toList_clause, stripPrefix_append]
  show (splitOnce _ _).bind _ = _
  rw [parts]
  show (parseI64 _).bind _ = _
  rw [parseI64_toString in_]
  exact found

/-- A clause read ends with a way on. -/
theorem readClause_ends {text : List Char} {p : Paused} (h : readClause text = some p) :
    ∃ front way, text = front ++ wayChars p.number way := by
  obtain ⟨rest, begun, h⟩ := Option.bind_eq_some_iff.1 h
  obtain ⟨⟨number, rest'⟩, split_, h⟩ := Option.bind_eq_some_iff.1 h
  obtain ⟨n, -, h⟩ := Option.bind_eq_some_iff.1 h
  obtain ⟨way, -, h⟩ := List.exists_of_findSome?_eq_some h
  obtain ⟨because, ended, same⟩ := Option.map_eq_some_iff.1 h
  cases same
  refine ⟨"T-".toList ++ (number ++ (" is paused: ".toList ++ because)), way, ?_⟩
  rw [stripPrefix_iff.1 begun, (splitOnce_iff.1 split_).here, stripSuffix_iff.1 ended]
  simp only [List.append_assoc]
  rfl

/-- What does not end as a way on does is no clause. -/
theorem readClause_none {text : List Char} {c : Char} (last : text.getLast? = some c)
    (other : ∀ way, ends way c = false) : readClause text = none := by
  cases found : readClause text with
  | none => rfl
  | some p =>
    obtain ⟨front, way, rfl⟩ := readClause_ends found
    obtain ⟨d, last', end_⟩ := getLast?_wayChars p.number way
    rw [List.getLast?_append, last'] at last
    cases last
    rw [other way] at end_
    cases end_

/-! ## 3. A note read back -/

theorem getLast?_clause (p : Paused) :
    ∃ c, p.clause.toList.getLast? = some c ∧ ends p.way c = true := by
  obtain ⟨c, last, end_⟩ := getLast?_wayChars p.number p.way
  refine ⟨c, ?_, end_⟩
  rw [toList_clause]
  simp only [List.getLast?_append, last, Option.some_or]

/-- No way on ends with a full stop. -/
theorem ends_dot (way : Way) : ends way '.' = false := by
  cases way <;> decide

/-- The first reading that gives a note gives what it names. -/
theorem read_of_first {body : String} {ps : List Paused} {earlier : List (Option (List Paused))}
    (first : ∃ later, readings body = earlier ++ some ps :: later) (none_ : ∀ r ∈ earlier, r = none)
    (same : render ps = body) : read body = some ps := by
  obtain ⟨later, readings_⟩ := first
  have nothing : earlier.filterMap id = [] := List.filterMap_eq_nil_iff.2 none_
  rw [read, readings_, List.filterMap_append, nothing, List.nil_append,
    List.filterMap_cons_some (f := id) rfl, List.find?_cons_of_pos]
  exact beq_iff_eq.2 same

/-- The note of one task. -/
theorem read_one (p : Paused) (in_ : InI64 p.number) : read (render [p]) = some [p] := by
  have back : (readClause p.clause.toList).map (fun p => [p]) = some [p] := by
    rw [readClause_clause p in_]
    rfl
  by_cases resumed : p.way = .resume
  · have written : render [p] = p.clause ++ oneTail := if_pos resumed
    have here : (stripSuffix oneTail.toList (render [p]).toList).bind
        (fun t => (readClause t).map fun p => [p]) = some [p] := by
      rw [written, String.toList_append, stripSuffix_append]
      exact back
    have first : ∃ later, readings (render [p]) = [] ++ some [p] :: later := by
      rw [readings, here]
      exact ⟨_, rfl⟩
    exact read_of_first first (fun _ one => absurd one List.not_mem_nil) rfl
  · have written : render [p] = p.clause ++ "." := if_neg resumed
    have chars : (render [p]).toList = p.clause.toList ++ ['.'] := by
      rw [written, String.toList_append]
      rfl
    -- the tail of one that is resumed ends with the full stop, and with a letter before it
    have first : stripSuffix oneTail.toList (render [p]).toList = none := by
      have tail : oneTail.toList =
          "; its window comes back on its own conversation".toList ++ ['.'] := by decide
      obtain ⟨c, last, end_⟩ := getLast?_clause p
      rw [chars, tail, stripSuffix_append_append]
      refine stripSuffix_last (c := 'n') rfl fun both => ?_
      rw [last] at both
      cases both
      cases way : p.way <;> rw [way] at end_ resumed <;> revert end_ resumed <;> decide
    have second : (stripSuffix ['.'] (render [p]).toList).bind
        (fun t => (readClause t).map fun p => [p]) = some [p] := by
      rw [chars, stripSuffix_append]
      exact back
    have found : ∃ later, readings (render [p]) = [none] ++ some [p] :: later := by
      rw [readings, first, second]
      exact ⟨_, rfl⟩
    exact read_of_first found (fun _ one => List.mem_singleton.1 one) rfl

theorem mapM_readClause {ps : List Paused} (in_ : ∀ p ∈ ps, InI64 p.number) :
    (ps.map fun p => p.clause.toList).mapM readClause = some ps := by
  induction ps with
  | nil => rfl
  | cons p ps ih =>
    rw [List.map_cons, List.mapM_cons, readClause_clause p (in_ p List.mem_cons_self),
      ih fun q one => in_ q (List.mem_cons_of_mem p one)]
    rfl

theorem digits_line (n : Int) : '\n' ∉ (toString n).toList := by
  intro one
  rcases mem_toString one with same | digit
  · cases same
  · exact absurd digit (by decide)

theorem append_line {a b : String} (here : '\n' ∉ a.toList) (there : '\n' ∉ b.toList) :
    '\n' ∉ (a ++ b).toList := by
  rw [String.toList_append, List.mem_append, not_or]
  exact ⟨here, there⟩

set_option maxRecDepth 4096 in
/-- A way on is one line. -/
theorem wayChars_line (number : Int) (way : Way) : '\n' ∉ wayChars number way := by
  have n := digits_line number
  refine append_line (by decide) ?_
  cases way with
  | gone => exact append_line (append_line (append_line (by decide) n) (by decide)) n
  | resume => exact append_line (append_line (by decide) n) (by decide)
  | held =>
    exact append_line (append_line (append_line (append_line (by decide) n) (by decide)) n)
      (by decide)

/-- A clause is one line. -/
theorem clause_line {p : Paused} (line : '\n' ∉ p.because.toList) : '\n' ∉ p.clause.toList := by
  rw [toList_clause]
  simp only [List.mem_append, not_or]
  exact ⟨by decide, digits_line p.number, by decide, line, wayChars_line p.number p.way⟩

/-- The clauses of several tasks, a line each. -/
def clauseLines (ps : List Paused) : List Char :=
  ['\n'].intercalate (ps.map fun p => p.clause.toList)

theorem getLast?_clauseLines {ps : List Paused} (some_ : ps ≠ []) :
    ∃ c way, (clauseLines ps).getLast? = some c ∧ ends way c = true := by
  unfold clauseLines
  induction ps with
  | nil => exact absurd rfl some_
  | cons p ps ih =>
    by_cases none_ : ps = []
    · obtain ⟨c, last, end_⟩ := getLast?_clause p
      subst none_
      rw [List.map_cons, List.map_nil, List.intercalate_singleton]
      exact ⟨c, p.way, last, end_⟩
    · obtain ⟨c, way, last, end_⟩ := ih none_
      refine ⟨c, way, ?_, end_⟩
      rw [List.map_cons, List.intercalate_cons_of_ne_nil (fun h => none_ (List.map_eq_nil_iff.1 h)),
        List.getLast?_append, last]
      rfl

/-- The note of several, as characters. -/
theorem toList_render {ps : List Paused} (some_ : 2 ≤ ps.length) : (render ps).toList =
    clauseLines ps ++ if ps.any fun p => p.way == .resume then '\n' :: manyTail.toList else [] := by
  have several : render ps = "\n".intercalate (ps.map clause ++
      if ps.any fun p => p.way == .resume then [manyTail] else []) := by
    cases ps with
    | nil => rfl
    | cons p ps =>
      cases ps with
      | nil => exact absurd some_ (Nat.not_succ_le_self 1)
      | cons q ps => rfl
  have clauses : ps.map clause ≠ [] := by
    intro none_
    rw [List.map_eq_nil_iff.1 none_] at some_
    exact absurd some_ (by decide)
  have joined : ("\n".intercalate (ps.map clause)).toList = clauseLines ps := by
    rw [String.toList_intercalate, List.map_map]
    rfl
  rw [several]
  by_cases any : (ps.any fun p => p.way == .resume) = true
  · rw [if_pos any, if_pos any, String.intercalate_append_of_ne_nil clauses (List.cons_ne_nil _ _),
      String.toList_append, String.toList_append, joined, List.append_assoc,
      String.intercalate_singleton]
    rfl
  · rw [if_neg any, if_neg any, List.append_nil, List.append_nil, joined]

/-- The note of several. -/
theorem read_many {ps : List Paused} (some_ : 2 ≤ ps.length) (in_ : ∀ p ∈ ps, InI64 p.number)
    (lines : ∀ p ∈ ps, '\n' ∉ p.because.toList) : read (render ps) = some ps := by
  have one : ps ≠ [] := by
    intro none_
    rw [none_] at some_
    exact absurd some_ (by decide)
  have pieces : (splitAll ['\n'] (clauseLines ps)).mapM readClause = some ps := by
    rw [clauseLines, splitAll_joined (c := '\n') rfl (fun h => one (List.map_eq_nil_iff.1 h))]
    · exact mapM_readClause in_
    · intro piece there
      obtain ⟨p, here, rfl⟩ := List.mem_map.1 there
      exact clause_line (lines p here)
  have found : ∃ later, readings (render ps) = [none, none] ++ some ps :: later := by
    have chars := toList_render some_
    by_cases any : (ps.any fun p => p.way == .resume) = true
    · rw [if_pos any] at chars
      -- the last line ends as one task's tail does, but for the word before it
      have each : '\n' :: manyTail.toList =
          ("\nEach".toList ++ " window comes back on its own conversation".toList) ++ ['.'] := by
        decide
      have its : oneTail.toList =
          ("; its".toList ++ " window comes back on its own conversation".toList) ++ ['.'] := by
        decide
      have first : stripSuffix oneTail.toList (render ps).toList = none := by
        rw [chars, each, its, ← List.append_assoc, ← List.append_assoc, stripSuffix_append_append,
          stripSuffix_append_append]
        refine stripSuffix_last (c := 's') rfl fun both => ?_
        rw [List.getLast?_append] at both
        cases both
      have second : (stripSuffix ['.'] (render ps).toList).bind
          (fun t => (readClause t).map fun p => [p]) = none := by
        rw [chars, each, ← List.append_assoc, stripSuffix_append, Option.bind_some,
          readClause_none (c := 'n')]
        · rfl
        · rw [← List.append_assoc, List.getLast?_append]
          rfl
        · intro way
          cases way <;> decide
      have lines_ : manyLines (render ps).toList = clauseLines ps := by
        have last : '\n' :: manyTail.toList = ['\n'] ++ manyTail.toList := rfl
        rw [manyLines, chars, last, ← List.append_assoc, stripSuffix_append, Option.bind_some,
          stripSuffix_append]
        rfl
      rw [readings, first, second, lines_, pieces]
      exact ⟨_, rfl⟩
    · rw [if_neg any, List.append_nil] at chars
      -- nothing ends with a full stop
      obtain ⟨c, way, last, end_⟩ := getLast?_clauseLines one
      have stop (q : List Char) (dot : q.getLast? = some '.') :
          stripSuffix q (clauseLines ps) = none := by
        refine stripSuffix_last dot fun both => ?_
        rw [last] at both
        cases both
        rw [ends_dot] at end_
        cases end_
      have lines_ : manyLines (render ps).toList = clauseLines ps := by
        rw [manyLines, chars, stop manyTail.toList rfl]
        rfl
      rw [readings, chars, stop oneTail.toList rfl, stop ['.'] rfl, ← chars, lines_, pieces]
      exact ⟨_, rfl⟩
  refine read_of_first found (fun r there => ?_) rfl
  rcases List.mem_cons.1 there with same | there
  · exact same
  · exact List.mem_singleton.1 there

/-- What a note is read as writes it. -/
theorem render_of_read {body : String} {ps : List Paused} (h : read body = some ps) :
    render ps = body :=
  beq_iff_eq.1 (List.find?_some (p := fun ps => render ps == body) h)

/-- **Pause notes read back exactly.** What is written of some tasks, in any words of one line, is
    read as them; and what is read writes that very text. -/
theorem pause_notes_read_back :
    (∀ ps : List Paused, ps ≠ [] → (∀ p ∈ ps, InI64 p.number ∧ '\n' ∉ p.because.toList) →
      read (render ps) = some ps) ∧
    ∀ (body : String) (ps : List Paused), read body = some ps → render ps = body := by
  refine ⟨fun ps some_ all => ?_, fun body ps => render_of_read⟩
  cases ps with
  | nil => exact absurd rfl some_
  | cons p more =>
    cases more with
    | nil => exact read_one p (all p List.mem_cons_self).1
    | cons q more =>
      exact read_many (Nat.le_add_left 2 more.length) (fun p one => (all p one).1)
        fun p one => (all p one).2

/-- Two tasks paused, one of whose windows comes back, and whose words quote another clause. -/
theorem pause_notes_quoting : read (render [⟨7, "its window closed. T-8 is paused: so", .resume⟩,
    ⟨9, "held", .held⟩]) = some [⟨7, "its window closed. T-8 is paused: so", .resume⟩,
    ⟨9, "held", .held⟩] := by
  refine pause_notes_read_back.1 _ (List.cons_ne_nil _ _) fun p one => ?_
  rcases List.mem_cons.1 one with rfl | one
  · exact ⟨by unfold InI64; decide, by decide⟩
  · rw [List.mem_singleton.1 one]
    exact ⟨by unfold InI64; decide, by decide⟩

end Paused
end ConsensFlow
