/-
  File:      ConsensFlow/Notes.lean
  Subject:   THE WORDS OF CONSENSFLOW'S OWN NOTES (`messages/pauses.rs`, `messages/holds.rs`,
             `messages/paused_answers.rs`): how each is written, and how it is told from the
             rest by its words alone.

  * `Paused`, `Paused.render`, `Paused.read` -- the note that tells of pauses: a sentence for one
    task, a line each for several. `read` takes only what `render` writes;
  * `warns`, `warningIn` -- the pauses that warn of a program that may still run;
  * `withKept` -- the words kept for the resume, named in a pause;
  * `isHoldNote`, `Answered` -- the notes of a hold, and of what a paused window answered.
-/
import ConsensFlow.Lib.Lines
import ConsensFlow.Lib.Text
import ConsensFlow.Model

namespace ConsensFlow

open Lib.Text

/-! ## 1. Pause notes -/

/-- The way on a pause note gives. -/
inductive Way where
  | resume | gone | held
  deriving DecidableEq, Repr

/-- What a pause note says of a task: its number, why it stopped, and the way on. -/
structure Paused where
  number : Int
  because : String
  way : Way
  deriving DecidableEq, Repr

def Way.ofStall (harnessGone : Bool) : Way := if harnessGone then .gone else .resume

def mayStillRun : String := "could not be ended and may still run"
def notProvenGone : String := "closed with no proof its program was gone"

/-- Whether the words of a pause warn of a program that outlives it. -/
def warns (because : String) : Bool :=
  contains mayStillRun.toList because.toList || contains notProvenGone.toList because.toList

def oneTail : String := "; its window comes back on its own conversation."
def manyTail : String := "Each window comes back on its own conversation."

/-- The way on a note gives for a task, after why it stopped. -/
def wayOn (number : Int) : Way → String
  | .gone => s!"Its member runs on a harness whose windows ConsensFlow cannot open: cancel it with cf task cancel T-{number} and add it again with cf task add once a member on another harness is on the staff, or finish it with cf task finish T-{number}"
  | .resume => s!"Resume it with: cf task resume T-{number} \"…\""
  | .held => s!"It does not go on in that conversation, and a window of its own would not remember it: if its brief counts on that, rewrite it with cf task edit T-{number} \"…\" first, then send it to a window of its own with: cf task resume T-{number} \"…\", or cancel it"

namespace Paused

def clause (p : Paused) : String := s!"T-{p.number} is paused: {p.because}. {wayOn p.number p.way}"

/-- The words of a note naming `ps`. -/
def render : List Paused → String
  | [one] => if one.way = .resume then one.clause ++ oneTail else one.clause ++ "."
  | many =>
    let last := if many.any fun p => p.way == .resume then [manyTail] else []
    "\n".intercalate (many.map clause ++ last)

/-- The task a clause names. -/
def readClause (text : List Char) : Option Paused := do
  let rest ← stripPrefix "T-".toList text
  let (digits, rest) ← splitOnce " is paused: ".toList rest
  let number ← parseI64 digits
  [Way.resume, .gone, .held].findSome? fun way =>
    (stripSuffix s!". {wayOn number way}".toList rest).map fun because =>
      { number, because := String.ofList because, way }

/-- The lines of a note of several, without its last one. -/
def manyLines (body : List Char) : List Char :=
  ((stripSuffix manyTail.toList body).bind (stripSuffix ['\n'])).getD body

/-- The three ways a pause note may read. -/
def readings (body : String) : List (Option (List Paused)) :=
  let cs := body.toList
  [(stripSuffix oneTail.toList cs).bind fun t => (readClause t).map fun p => [p],
   (stripSuffix ['.'] cs).bind fun t => (readClause t).map fun p => [p],
   (splitAll ['\n'] (manyLines cs)).mapM readClause]

/-- The tasks a note names, or none when it is no pause note. -/
def read (body : String) : Option (List Paused) :=
  ((readings body).filterMap id).find? fun ps => render ps == body

end Paused

/-- What a pause note says of task `number` that is a warning. -/
def warningIn (body : String) (number : Nat) : Option String :=
  (Paused.read body).bind fun ps =>
    ((ps.find? fun p => p.number == (number : Int)).map (·.because)).filter warns

/-! ## 2. The words kept for the resume -/

def keptClause : String := "; the words told its window wait for the resume: "
def heldClause : String := "; the words told its window wait for the human, then the resume: "
def keptGoneClause : String :=
  "; the words told its window cannot reach it, and go with the task if it is cancelled: "
def heldGoneClause : String :=
  "; the words told its window wait for the human, then cannot reach it, and go with the task if it is cancelled: "

/-- The ids `clause` names in `rest`. -/
def namedIn (rest : List Char) (clause : String) : List Int :=
  match splitOnce clause.toList rest with
  | none => []
  | some (_, after) =>
    (splitAll ", ".toList (after.takeWhile (· != ';'))).filterMap fun w =>
      (stripPrefix "m-".toList w).bind parseI64

/-- The lines of a text, as `str::lines` gives them: a carriage return before a newline goes with it,
    and one that ends the text stays. -/
def lines (cs : List Char) : List (List Char) :=
  let (ended, rest) := Lib.Lines.split '\n' cs
  ended.map (fun l => if l.getLast? = some '\r' then l.dropLast else l) ++
    if rest.isEmpty then [] else [rest]

example : lines "gone\r\n\ngone\r".toList = ["gone".toList, [], "gone\r".toList] := by decide

/-- Where a text divides before the first of two clauses it holds. -/
def beforeClauses (because : List Char) (a b : String) : List Char × List Char :=
  let at_ (c : String) := (splitOnce c.toList because).map fun (head, _) => head.length
  match [at_ a, at_ b].filterMap id |>.min? with
  | none => (because, [])
  | some n => (because.take n, because.drop n)

def mList (ids : List Int) : String := ", ".intercalate (ids.map fun id => s!"m-{id}")

/-- What `because` says once told words `id`, kept for the resume, are named in it. -/
def withKept (because : String) (id : Int) (why : String) (held harnessGone : Bool) : String :=
  let (keptWords, heldWords) :=
    if harnessGone then (keptGoneClause, heldGoneClause) else (keptClause, heldClause)
  let why := " ".intercalate ((lines why.toList).map String.ofList)
  let (head, rest) := beforeClauses because.toList keptWords heldWords
  let kept := namedIn rest keptWords
  let waiting := namedIn rest heldWords
  let head := if kept.isEmpty && waiting.isEmpty && !contains why.toList head then
    s!"{String.ofList head}: {why}" else String.ofList head
  let add (ids : List Int) : List Int :=
    if ids.contains id then ids else (ids ++ [id]).insertionSort (· ≤ ·)
  let (kept, waiting) := if held then (kept, add waiting) else (add kept, waiting)
  let said (clause : String) (ids : List Int) := if ids.isEmpty then "" else clause ++ mList ids
  s!"{head}{said keptWords kept}{said heldWords waiting}"

/-! ## 3. Hold notes -/

def holdTail : String := ", or sooner if its account has quota again; it goes on by itself."
def holdOldTail : String := "; it goes on by itself then."
def holdTailUnavailable : String :=
  ", and nothing resets that; it goes on when the human says the account works again."
def holdTailMoved : String := "; it goes on when the human says it may."

def renderHold (number : Nat) (handle until_ : String) : String :=
  s!"T-{number} waits with @{handle}: out of quota until {until_}{holdTail}"

def renderUnavailable (number : Nat) (handle because : String) : String :=
  s!"T-{number} waits with @{handle}: its account is unavailable ({because}){holdTailUnavailable}"

def renderMoved (number : Nat) (handle because : String) : String :=
  s!"T-{number} waits with @{handle}: {because}{holdTailMoved}"

def busyWords : String :=
  ": its model is busy, a refusal of its provider for a moment and no failure"

def renderBusy (number : Nat) (handle because : String) (tiered : Bool) : String :=
  let after := if tiered then
    "then gives it to another free member of its tier, or tries every 5 minutes while none is free"
    else "then every 5 minutes"
  s!"T-{number} waits with @{handle}{busyWords} ({because}). ConsensFlow tries it again in 1, 2 and 4 minutes, {after}; you are not told of each try."

def goesOnMoved (number : Nat) : String :=
  s!"T-{number} goes on: the human said its model may go on."

def goesOn (number : Nat) : String := s!"T-{number} goes on: its account has quota again."

def endsWith (tail body : String) : Bool := (stripSuffix tail.toList body.toList).isSome

/-- Whether a text is the hold note of a task, as this build or an older one wrote it. -/
def isHoldNote (number : Nat) (body : String) : Bool :=
  (stripPrefix s!"T-{number} waits with @".toList body.toList).isSome &&
    [holdTail, holdOldTail, holdTailUnavailable, holdTailMoved].any fun tail => endsWith tail body

/-! ## 4. What a paused task's window answered -/

inductive Next where
  | chief | human
  deriving DecidableEq, Repr

/-- Whether a note's task is still paused, or has moved on, in the words written now or before. -/
inductive Then where
  | paused (next : Next)
  | moved
  | movedBefore
  deriving DecidableEq, Repr

/-- What a note of a window's answer says. -/
structure Answered where
  number : Int
  handle : String
  tell : Int
  reply : Option String
  words : String
  then_ : Then
  deriving DecidableEq, Repr

def isPausedWords : String := " is paused, and @"
def wasPausedWords : String := ", paused when @"
def turnOnWords : String := "'s turn on the words put to its window (m-"
def isOverWords : String := ") is over. What it said last:\n\n"
def movedOnHead : String :=
  ") began, has moved on since (resumed, or back on the board). This is not its result: that comes as a message of its own, the answer of the turn its resume, or its next assignment, begins, and it is the one to decide. "
def movedOnEnded : String := "What the turn on those words ended with:\n\n"
def movedOnWords : String := movedOnHead ++ movedOnEnded
def isOverAfterAReply : String := ") is over. What it wrote first, before any tool:\n\n"
def lastWords : String := "\n\nWhat it said last:\n\n"
def movedOnAfterAReply : String :=
  "What the turn on those words wrote first, before any tool:\n\n"
def endedWith : String := "\n\nand ended with:\n\n"
def movedOnBefore : String :=
  ") began, has moved on since (resumed, or back on the board): its result will be its next complete answer, not this. What that turn ended with:\n\n"

namespace Answered

/-- The words after the answer's, while the task is paused. -/
def tail (number : Int) : Next → String
  | .chief => s!"\n\nIf that is the result, take it: cf task finish T-{number}. To send it on: cf task resume T-{number} \"…\"."
  | .human => "\n\nTo take it as the result, Finish it in the task's drawer; to send it on, Resume it there."

def renderAfterAReply (a : Answered) (reply : String) : String :=
  match a.then_ with
  | .paused next =>
    s!"T-{a.number}{isPausedWords}{a.handle}{turnOnWords}{a.tell}{isOverAfterAReply}{reply}{lastWords}{a.words}{tail a.number next}"
  | _ =>
    s!"T-{a.number}{wasPausedWords}{a.handle}{turnOnWords}{a.tell}{movedOnHead}{movedOnAfterAReply}{reply}{endedWith}{a.words}"

def renderPlain (a : Answered) : String :=
  match a.then_ with
  | .paused next =>
    s!"T-{a.number}{isPausedWords}{a.handle}{turnOnWords}{a.tell}{isOverWords}{a.words}{tail a.number next}"
  | .moved => s!"T-{a.number}{wasPausedWords}{a.handle}{turnOnWords}{a.tell}{movedOnWords}{a.words}"
  | .movedBefore =>
    s!"T-{a.number}{wasPausedWords}{a.handle}{turnOnWords}{a.tell}{movedOnBefore}{a.words}"

/-- The words of a note. One of an earlier build is written no more, and has no reply. -/
def render (a : Answered) : String :=
  match a.reply with
  | some reply => if a.then_ = .movedBefore then a.renderPlain else a.renderAfterAReply reply
  | none => a.renderPlain

/-- The digits that begin a text, and what follows them. -/
def numberIn (cs : List Char) : Option (Int × List Char) :=
  (parseI64 (cs.takeWhile Char.isDigit)).map fun n => (n, cs.dropWhile Char.isDigit)

/-- How the words of a note of a task still paused end. -/
def pausedTail (number : Int) (rest : List Char) : Option (List Char × Then) :=
  [Next.chief, .human].findSome? fun next =>
    (stripSuffix (tail number next).toList rest).map fun words => (words, .paused next)

/-- The reply, the last words and how the task stands, where the window wrote words first. -/
def afterAReply (number : Int) (paused : Bool) (rest : List Char) :
    Option (List Char × List Char × Then) :=
  if paused then do
    let rest ← stripPrefix isOverAfterAReply.toList rest
    let (kept, then_) ← pausedTail number rest
    let (reply, words) ← splitOnce lastWords.toList kept
    pure (reply, words, then_)
  else do
    let rest ← stripPrefix movedOnHead.toList rest
    let rest ← stripPrefix movedOnAfterAReply.toList rest
    let (reply, words) ← splitOnce endedWith.toList rest
    pure (reply, words, .moved)

/-- The last words and how the task stands, where the window wrote no words first. -/
def plainWords (number : Int) (paused : Bool) (rest : List Char) : Option (List Char × Then) :=
  if paused then (stripPrefix isOverWords.toList rest).bind (pausedTail number)
  else match stripPrefix movedOnWords.toList rest with
    | some words => some (words, .moved)
    | none => (stripPrefix movedOnBefore.toList rest).map fun words => (words, .movedBefore)

/-- What a note says, or none when it is no such note. -/
def read (body : String) : Option Answered := do
  let rest ← stripPrefix "T-".toList body.toList
  let (number, rest) ← numberIn rest
  let (paused, rest) ← match stripPrefix isPausedWords.toList rest with
    | some rest => some (true, rest)
    | none => (stripPrefix wasPausedWords.toList rest).map fun rest => (false, rest)
  let (handle, rest) ← splitOnce turnOnWords.toList rest
  let (tell, rest) ← numberIn rest
  let handle := String.ofList handle
  let said ← match afterAReply number paused rest with
    | some (reply, words, then_) =>
      some { number, handle, tell, reply := some (String.ofList reply),
             words := String.ofList words, then_ : Answered }
    | none => (plainWords number paused rest).map fun (words, then_) =>
      { number, handle, tell, reply := none, words := String.ofList words, then_ }
  if said.render == body then some said else none

/-- The words every note of a task's window begins with, paused or moved on. -/
def prefixes (number : Nat) : String × String :=
  (s!"T-{number}{isPausedWords}", s!"T-{number}{wasPausedWords}")

end Answered
end ConsensFlow
