/-
  File:      ConsensFlow/Words/GoOnNotes.lean
  Subject:   CONTINUATIONS TOLD BY THEIR WORDS (`messages/continuations.rs`:
             `continuation_in`, `cut_turn` and `continuation_tasks`).

  * `toList_named`, `taskList_named` -- the tasks a note names, and that they read back;
  * `Taken`, `continuationTasks_iff` -- what is taken for a continuation, and the tasks it names;
  * `Written` -- what this build and those before it write; **`continuations_told_iff`**: what is
    written is told as it was, and what is told was written but for a turn that no build writes.
-/
import ConsensFlow.Lib.Apart
import ConsensFlow.Continuations

namespace ConsensFlow

open Lib.Text

/-! ## 1. The tasks a note names -/

theorem toList_named (tasks : List Int) : (named tasks).toList = numbered "T-".toList tasks := by
  unfold named numbered
  rw [String.toList_intercalate, List.map_map]
  congr 1
  refine List.map_congr_left fun n _ => ?_
  show ("T-" ++ toString n).toList = _
  rw [String.toList_append]

theorem mapM_read {tasks : List Int} (in_ : ∀ n ∈ tasks, InI64 n) :
    (tasks.map fun n => "T-".toList ++ (toString n).toList).mapM
      (fun w => (stripPrefix "T-".toList w).bind parseI64) = some tasks := by
  induction tasks with
  | nil => rfl
  | cons n tasks ih =>
    rw [List.map_cons, List.mapM_cons, read_numbered (in_ n List.mem_cons_self),
      ih fun m one => in_ m (List.mem_cons_of_mem n one)]
    rfl

/-- The tasks named read back. -/
theorem taskList_named {tasks : List Int} (some_ : tasks ≠ []) (in_ : ∀ n ∈ tasks, InI64 n) :
    taskList (named tasks).toList = some tasks := by
  rw [taskList, toList_named, splitAll_numbered (by decide) some_, mapM_read in_]

theorem mapM_some {α β : Type} {f : α → Option β} {P : β → Prop} (all : ∀ w x, f w = some x → P x)
    {ws : List α} {xs : List β} (h : ws.mapM f = some xs) :
    (ws ≠ [] → xs ≠ []) ∧ ∀ x ∈ xs, P x := by
  induction ws generalizing xs with
  | nil =>
    cases h
    exact ⟨fun some_ => absurd rfl some_, fun x one => absurd one List.not_mem_nil⟩
  | cons w ws ih =>
    rw [List.mapM_cons] at h
    obtain ⟨x, here, h⟩ := Option.bind_eq_some_iff.1 h
    obtain ⟨more, rest, h⟩ := Option.bind_eq_some_iff.1 h
    cases h
    refine ⟨fun _ => List.cons_ne_nil _ _, fun y one => ?_⟩
    rcases List.mem_cons.1 one with rfl | one
    · exact all w y here
    · exact (ih rest).2 y one

/-- A list read names tasks, some, and by numbers. -/
theorem taskList_some {list : List Char} {tasks : List Int} (h : taskList list = some tasks) :
    tasks ≠ [] ∧ ∀ n ∈ tasks, InI64 n := by
  have each : ∀ w n, (stripPrefix "T-".toList w).bind parseI64 = some n → InI64 n := by
    intro w n read_
    obtain ⟨rest, -, read_⟩ := Option.bind_eq_some_iff.1 read_
    exact parseI64_in read_
  obtain ⟨some_, all⟩ := mapM_some each h
  exact ⟨some_ (splitFuel_some _ _), all⟩

theorem numbered_begun (n : Int) (tasks : List Int) :
    ∃ more, numbered "T-".toList (n :: tasks) = 'T' :: more := by
  cases tasks with
  | nil =>
    unfold numbered
    rw [List.map_singleton, List.intercalate_singleton]
    exact ⟨_, rfl⟩
  | cons m tasks =>
    rw [numbered_cons_cons]
    exact ⟨_, rfl⟩

/-- The words that lead a turn are in no list of tasks. -/
theorem numbered_free (tasks : List Int) :
    contains inTheTurn.toList (numbered "T-".toList tasks) = false := by
  have comma (n : Int) : ',' ∉ "T-".toList ++ (toString n).toList := by
    intro one
    rcases List.mem_append.1 one with one | one
    · exact absurd one (by decide)
    · rcases mem_toString one with same | digit
      · cases same
      · exact absurd digit (by decide)
  have lead : inTheTurn.toList = ',' :: " in ".toList := by decide
  induction tasks with
  | nil => rfl
  | cons n tasks ih =>
    cases tasks with
    | nil =>
      unfold numbered
      rw [List.map_singleton, List.intercalate_singleton]
      exact contains_head (c := ',') rfl (comma n)
    | cons m tasks =>
      obtain ⟨more, begun⟩ := numbered_begun m tasks
      rw [numbered_cons_cons, ← List.append_assoc, lead]
      refine contains_append (by decide) (contains_head (c := ',') rfl (comma n)) ?_
      rw [← lead]
      refine contains_cons ?_ (contains_cons ?_ ih)
      · rw [begun]
        rfl
      · rfl

/-! ## 2. What is taken for a continuation -/

/-- Whether a text goes on as a turn does. -/
def turns (start : String) (turn : List Char) : Bool :=
  start == stoppedWords && (stripPrefix "the turn that began ".toList turn).isSome

/-- The tasks a body names, and the turn it says. -/
def saidOf (start : String) (said : List Char) : List Char × Option (List Char) :=
  match splitOnce inTheTurn.toList said with
  | some (list, turn) => if turns start turn then (list, some turn) else (said, none)
  | none => (said, none)

/-- The turn, as a body says it. -/
def turnSaid : Option (List Char) → String
  | some turn => inTheTurn ++ String.ofList turn
  | none => ""

theorem continuationFrom_eq (start body : String) : continuationFrom start body =
    (stripPrefix start.toList body.toList).bind fun rest =>
      (stripSuffix s!". {resumeWords}".toList rest).bind fun said =>
        (taskList (saidOf start said).1).bind fun tasks =>
          if s!"{start}{named tasks}{turnSaid (saidOf start said).2}. {resumeWords}" == body then
            some tasks else none := by
  unfold continuationFrom saidOf
  refine congrArg _ (funext fun rest => ?_)
  refine congrArg _ (funext fun said => ?_)
  cases splitOnce inTheTurn.toList said with
  | none => rfl
  | some parts =>
    obtain ⟨list, turn⟩ := parts
    dsimp only
    unfold turns
    by_cases turns_ : (start == stoppedWords &&
        (stripPrefix "the turn that began ".toList turn).isSome) = true
    · simp only [if_pos turns_]
      rfl
    · simp only [if_neg turns_]
      rfl

/-- The words of a continuation: the tasks it names, and the turn it says. -/
def goOn (start : String) (tasks : List Int) (turn : Option (List Char)) : String :=
  s!"{start}{named tasks}{turnSaid turn}. {resumeWords}"

/-- What is taken for a continuation, and the tasks it names. -/
def Taken (body : String) (tasks : List Int) : Prop :=
  tasks ≠ [] ∧ (∀ n ∈ tasks, InI64 n) ∧
    ((∃ start ∈ [stoppedWords, quitWords], body = goOn start tasks none) ∨
      ∃ turn, turns stoppedWords turn = true ∧ body = goOn stoppedWords tasks (some turn))

theorem continuationFrom_taken {start body : String} {tasks : List Int}
    (start_ : start ∈ [stoppedWords, quitWords])
    (h : continuationFrom start body = some tasks) : Taken body tasks := by
  rw [continuationFrom_eq] at h
  obtain ⟨rest, -, h⟩ := Option.bind_eq_some_iff.1 h
  obtain ⟨said, -, h⟩ := Option.bind_eq_some_iff.1 h
  obtain ⟨tasks', list, h⟩ := Option.bind_eq_some_iff.1 h
  obtain ⟨written, same⟩ := Option.ite_none_right_eq_some.1 h
  cases same
  obtain ⟨some_, in_⟩ := taskList_some list
  have body_ : body = goOn start tasks (saidOf start said).2 := (beq_iff_eq.1 written).symm
  refine ⟨some_, in_, ?_⟩
  unfold saidOf at body_
  cases split_ : splitOnce inTheTurn.toList said with
  | none =>
    rw [split_] at body_
    exact Or.inl ⟨start, start_, body_⟩
  | some parts =>
    obtain ⟨list, turn⟩ := parts
    rw [split_] at body_
    dsimp only at body_
    by_cases turns_ : turns start turn = true
    · rw [if_pos turns_] at body_
      have first : start = stoppedWords := by
        unfold turns at turns_
        exact beq_iff_eq.1 (Bool.and_eq_true_iff.1 turns_).1
      rw [first] at turns_ body_
      exact Or.inr ⟨turn, turns_, body_⟩
    · rw [if_neg turns_] at body_
      exact Or.inl ⟨start, start_, body_⟩

/-- A continuation, as characters. -/
theorem toList_goOn (start : String) (tasks : List Int) (turn : Option (List Char)) :
    (goOn start tasks turn).toList = start.toList ++ ((numbered "T-".toList tasks ++
      (turnSaid turn).toList) ++ s!". {resumeWords}".toList) := by
  have form : goOn start tasks turn = start ++ named tasks ++ turnSaid turn ++ s!". {resumeWords}" := by
    rw [← String.toList_inj]
    unfold goOn
    simp only [String.toList_append, toString, List.append_assoc]
  rw [form, String.toList_append, String.toList_append, String.toList_append, toList_named,
    List.append_assoc, List.append_assoc, List.append_assoc]

/-- What reads back as it was written is taken. -/
theorem continuationFrom_goOn {start : String} {tasks : List Int} {turn : Option (List Char)}
    (some_ : tasks ≠ []) (in_ : ∀ n ∈ tasks, InI64 n)
    (said : saidOf start (numbered "T-".toList tasks ++ (turnSaid turn).toList) =
      (numbered "T-".toList tasks, turn)) :
    continuationFrom start (goOn start tasks turn) = some tasks := by
  have list := taskList_named some_ in_
  rw [toList_named] at list
  rw [continuationFrom_eq, toList_goOn, stripPrefix_append, Option.bind_some, stripSuffix_append,
    Option.bind_some, said, list, Option.bind_some]
  exact if_pos (beq_iff_eq.2 rfl)

theorem stopped_or_quit (more : List Char) :
    stripPrefix stoppedWords.toList (quitWords.toList ++ more) = none := by
  have one : stoppedWords.toList = _ := String.toList_ofList
  have two : quitWords.toList = _ := String.toList_ofList
  rw [one, two]
  rfl

/-- **What is taken for a continuation**: a list of tasks, and a turn or none. -/
theorem continuationTasks_iff {body : String} {tasks : List Int} :
    continuationTasks body = some tasks ↔ Taken body tasks := by
  constructor
  · intro h
    unfold continuationTasks at h
    by_cases stopped : (stripPrefix stoppedWords.toList body.toList).isSome = true
    · rw [if_pos stopped] at h
      exact continuationFrom_taken List.mem_cons_self h
    · rw [if_neg stopped] at h
      by_cases quit : (stripPrefix quitWords.toList body.toList).isSome = true
      · rw [if_pos quit] at h
        exact continuationFrom_taken (List.mem_cons_of_mem _ List.mem_cons_self) h
      · rw [if_neg quit] at h
        cases h
  · rintro ⟨some_, in_, h⟩
    have free := numbered_free tasks
    have plain (start : String) : saidOf start (numbered "T-".toList tasks ++
        (turnSaid none).toList) = (numbered "T-".toList tasks, none) := by
      unfold contains at free
      rw [Option.isSome_eq_false_iff, Option.isNone_iff_eq_none] at free
      have none_ : (turnSaid none).toList = [] := rfl
      rw [none_, List.append_nil, saidOf, free]
    have begun (start : String) (turn : Option (List Char)) :
        (stripPrefix start.toList (goOn start tasks turn).toList).isSome = true := by
      rw [toList_goOn, stripPrefix_append]
      rfl
    rcases h with ⟨start, among, rfl⟩ | ⟨turn, turns_, rfl⟩
    · rcases List.mem_cons.1 among with rfl | among
      · rw [continuationTasks, if_pos (begun _ _)]
        exact continuationFrom_goOn some_ in_ (plain _)
      · rw [List.mem_singleton.1 among]
        have other : ¬(stripPrefix stoppedWords.toList (goOn quitWords tasks none).toList).isSome =
            true := by
          rw [toList_goOn, stopped_or_quit]
          exact Bool.false_ne_true
        rw [continuationTasks, if_neg other, if_pos (begun _ _)]
        exact continuationFrom_goOn some_ in_ (plain _)
    · have lead : inTheTurn.toList = ',' :: " in ".toList := by decide
      have first : First inTheTurn.toList (numbered "T-".toList tasks ++ (inTheTurn.toList ++ turn))
          (numbered "T-".toList tasks) turn := by
        rw [lead] at free ⊢
        exact First.of_free (by decide) free
      rw [continuationTasks, if_pos (begun _ _)]
      refine continuationFrom_goOn some_ in_ ?_
      have said : (turnSaid (some turn)).toList = inTheTurn.toList ++ turn := by
        show (inTheTurn ++ String.ofList turn).toList = _
        rw [String.toList_append, String.toList_ofList]
      rw [said, saidOf, splitOnce_iff.2 first]
      exact if_pos turns_

/-! ## 3. What is written -/

/-- What this build writes, and those before it wrote, of tasks. -/
def ContinuationOf (body : String) (tasks : List Int) : Prop :=
  (tasks ≠ [] ∧ (∀ n ∈ tasks, InI64 n) ∧
    ∃ start ∈ [stoppedWords, quitWords], body = s!"{start}{named tasks}. {resumeWords}") ∨
  ∃ n at_ words, InI64 n ∧ tasks = [n] ∧ body = continuationIn n (cutTurn at_ words)

/-- Several tasks in one turn, or a turn in other words than a cut turn's: what no build writes. -/
def OddTurn (body : String) : Prop :=
  ∃ tasks turn, tasks ≠ [] ∧ (∀ n ∈ tasks, InI64 n) ∧
    (∃ more, turn = "the turn that began " ++ more) ∧
    body = s!"{stoppedWords}{named tasks}{inTheTurn}{turn}. {resumeWords}" ∧
    ¬(tasks.length = 1 ∧ ∃ at_ words, turn = cutTurn at_ words)

theorem goOn_none (start : String) (tasks : List Int) :
    goOn start tasks none = s!"{start}{named tasks}. {resumeWords}" := by
  rw [← String.toList_inj]
  unfold goOn turnSaid
  simp only [String.toList_append, toString, List.append_assoc, String.toList_empty, List.nil_append]

theorem goOn_some (start : String) (tasks : List Int) (turn : String) :
    goOn start tasks (some turn.toList) =
      s!"{start}{named tasks}{inTheTurn}{turn}. {resumeWords}" := by
  rw [← String.toList_inj]
  unfold goOn turnSaid
  simp only [String.toList_append, toString, List.append_assoc, String.ofList_toList]

theorem turns_iff (turn : List Char) : turns stoppedWords turn = true ↔
    ∃ more, String.ofList turn = "the turn that began " ++ more := by
  unfold turns
  rw [beq_self_eq_true, Bool.true_and, Option.isSome_iff_exists]
  constructor
  · rintro ⟨rest, h⟩
    refine ⟨String.ofList rest, ?_⟩
    rw [← String.toList_inj, String.toList_append, String.toList_ofList (l := turn),
      String.toList_ofList (l := rest)]
    exact stripPrefix_iff.1 h
  · rintro ⟨more, h⟩
    rw [← String.toList_inj, String.toList_append, String.toList_ofList (l := turn)] at h
    exact ⟨more.toList, stripPrefix_iff.2 h⟩

theorem cutTurn_turns (at_ : Option String) (words : String) :
    ∃ more, cutTurn at_ words = "the turn that began " ++ more := by
  have one : "the turn that began at " = "the turn that began " ++ "at " := by decide
  have other : "the turn that began with \"" = "the turn that began " ++ "with \"" := by decide
  cases at_ with
  | some at_ =>
    refine ⟨"at " ++ at_ ++ " with \"" ++ words ++ "\"", ?_⟩
    show "the turn that began at " ++ at_ ++ " with \"" ++ words ++ "\"" = _
    rw [one]
    simp only [String.append_assoc]
  | none =>
    refine ⟨"with \"" ++ words ++ "\"", ?_⟩
    show "the turn that began with \"" ++ words ++ "\"" = _
    rw [other]
    simp only [String.append_assoc]

/-- The words written of one task, in a turn, are taken for it. -/
theorem continuationTasks_written {body : String} {tasks : List Int}
    (written : ContinuationOf body tasks) : continuationTasks body = some tasks := by
  refine continuationTasks_iff.2 ?_
  rcases written with ⟨some_, in_, start, among, rfl⟩ | ⟨n, at_, words, in_, rfl, rfl⟩
  · exact ⟨some_, in_, Or.inl ⟨start, among, (goOn_none start tasks).symm⟩⟩
  · refine ⟨List.cons_ne_nil _ _, fun m one => ?_, Or.inr ⟨(cutTurn at_ words).toList, ?_, ?_⟩⟩
    · rw [List.mem_singleton.1 one]
      exact in_
    · rw [turns_iff, String.ofList_toList]
      exact cutTurn_turns at_ words
    · exact (goOn_some stoppedWords [n] (cutTurn at_ words)).symm

theorem turnSaid_some (turn : List Char) :
    (turnSaid (some turn)).toList = inTheTurn.toList ++ turn := by
  show (inTheTurn ++ String.ofList turn).toList = _
  rw [String.toList_append, String.toList_ofList]

/-- The turn of a continuation is told by its words. -/
theorem goOn_turn {tasks : List Int} {turn turn' : List Char}
    (same : goOn stoppedWords tasks (some turn) = goOn stoppedWords tasks (some turn')) :
    turn = turn' := by
  rw [← String.toList_inj, toList_goOn, toList_goOn, List.append_cancel_left_eq,
    List.append_cancel_right_eq, List.append_cancel_left_eq, turnSaid_some, turnSaid_some,
    List.append_cancel_left_eq] at same
  exact same

/-- A body with an odd turn is taken for a continuation, and was not written as one. -/
theorem oddTurn_told {tasks : List Int} {turn : String} (some_ : tasks ≠ [])
    (in_ : ∀ n ∈ tasks, InI64 n) (turns_ : ∃ more, turn = "the turn that began " ++ more)
    (not_ : ¬(tasks.length = 1 ∧ ∃ at_ words, turn = cutTurn at_ words)) :
    continuationTasks (s!"{stoppedWords}{named tasks}{inTheTurn}{turn}. {resumeWords}") =
      some tasks ∧
    ¬ContinuationOf (s!"{stoppedWords}{named tasks}{inTheTurn}{turn}. {resumeWords}") tasks := by
  constructor
  · refine continuationTasks_iff.2 ⟨some_, in_, Or.inr ⟨turn.toList, ?_, ?_⟩⟩
    · rw [turns_iff, String.ofList_toList]
      exact turns_
    · exact (goOn_some stoppedWords tasks turn).symm
  · rintro (⟨-, -, start, among, same⟩ | ⟨n, at_, words, -, rfl, same⟩)
    · rw [← goOn_none, ← goOn_some, ← String.toList_inj, toList_goOn, toList_goOn] at same
      rcases List.mem_cons.1 among with rfl | among
      · rw [List.append_cancel_left_eq, List.append_cancel_right_eq, List.append_cancel_left_eq,
          turnSaid_some] at same
        cases same
      · rw [List.mem_singleton.1 among] at same
        have other := stopped_or_quit
          (numbered "T-".toList tasks ++ (turnSaid none).toList ++ s!". {resumeWords}".toList)
        rw [← same, stripPrefix_append] at other
        cases other
    · have whole : continuationIn n (cutTurn at_ words) =
          goOn stoppedWords [n] (some (cutTurn at_ words).toList) := (goOn_some ..).symm
      rw [whole, ← goOn_some] at same
      exact not_ ⟨rfl, at_, words, String.toList_inj.1 (goOn_turn same)⟩

/-- **Continuations are told exactly**: what is written of a task, with its turn or without, is told
    to be of that task alone; and what is told was written as it is told, but for an odd turn. -/
theorem continuations_told_iff (body : String) :
    (∀ n, InI64 n → continuationTasks (continuation n) = some [n] ∧
      ∀ at_ words, continuationTasks (continuationIn n (cutTurn at_ words)) = some [n]) ∧
    ((∀ tasks, continuationTasks body = some tasks → ContinuationOf body tasks) ↔
      ¬OddTurn body) := by
  refine ⟨fun n in_ => ⟨?_, fun at_ words => ?_⟩, ⟨fun told odd => ?_, ?_⟩⟩
  · refine continuationTasks_written (Or.inl ⟨List.cons_ne_nil _ _, fun m one => ?_, ?_⟩)
    · rw [List.mem_singleton.1 one]
      exact in_
    · exact ⟨stoppedWords, List.mem_cons_self, rfl⟩
  · exact continuationTasks_written (Or.inr ⟨n, at_, words, in_, rfl, rfl⟩)
  · obtain ⟨tasks, turn, some_, in_, turns_, rfl, not_⟩ := odd
    obtain ⟨taken, none_⟩ := oddTurn_told some_ in_ turns_ not_
    exact none_ (told tasks taken)
  · intro plain tasks told
    obtain ⟨some_, in_, ⟨start, among, rfl⟩ | ⟨turn, turns_, rfl⟩⟩ := continuationTasks_iff.1 told
    · exact Or.inl ⟨some_, in_, start, among, goOn_none start tasks⟩
    · have written := goOn_some stoppedWords tasks (String.ofList turn)
      rw [String.toList_ofList] at written
      by_cases cut : tasks.length = 1 ∧ ∃ at_ words, String.ofList turn = cutTurn at_ words
      · obtain ⟨one, at_, words, same⟩ := cut
        obtain ⟨n, rfl⟩ := List.length_eq_one_iff.1 one
        refine Or.inr ⟨n, at_, words, in_ n List.mem_cons_self, rfl, ?_⟩
        rw [written, same]
        rfl
      · exact absurd ⟨tasks, String.ofList turn, some_, in_, (turns_iff turn).1 turns_, written, cut⟩
          plain

/-- A text that no build writes. -/
def twoTasksBody : String :=
  "ConsensFlow stopped while you were working on T-1, T-2, in the turn that began with \"x\". Go on where you stopped."

/-- What a continuation's words quote may be another's. -/
theorem continuation_seven_told :
    continuationTasks (continuation 7) = some [7] ∧
    continuationTasks (continuationIn 7 (cutTurn (some "12:05")
      "what of \"T-9, in the turn that began with\"? Go on where you stopped.")) = some [7] :=
  have told := (continuations_told_iff twoTasksBody).1 7 ⟨by decide, by decide⟩
  ⟨told.1, told.2 _ _⟩

set_option maxRecDepth 8192 in
/-- Two tasks in one turn: taken for a continuation of both, and written by no build. -/
theorem two_tasks_told : continuationTasks twoTasksBody = some [1, 2] ∧
    ¬ContinuationOf twoTasksBody [1, 2] := by
  have in_ : ∀ n ∈ [(1 : Int), 2], InI64 n := by
    intro n one
    rcases List.mem_cons.1 one with rfl | one
    · exact ⟨by decide, by decide⟩
    · rw [List.mem_singleton.1 one]
      exact ⟨by decide, by decide⟩
  obtain ⟨turn, turn_⟩ : ∃ turn, turn = cutTurn none (toString 'x') := ⟨_, rfl⟩
  have body : twoTasksBody =
      s!"{stoppedWords}{named [1, 2]}{inTheTurn}{turn}. {resumeWords}" := by
    rw [turn_]
    decide
  rw [body, turn_]
  exact oddTurn_told (List.cons_ne_nil _ _) in_ (cutTurn_turns none _)
    fun h => absurd h.1 (by decide)

end ConsensFlow
