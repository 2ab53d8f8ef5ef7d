/-
  File:      ConsensFlow/Asking.lean
  Subject:   QUESTIONS, ANSWERS AND WORDS TOLD (`messages.rs`, `messages/told.rs`,
             `messages/holds.rs`, `messages/roles.rs`, and the texts of `questions.rs`).

  * `ask` -- a question; an urgent one is the chief's tell, which pauses the task first;
  * `answer` -- the answer goes back to whoever asked, once;
  * `tellQueued` -- words for the window of a task that has not begun, or whose resume waits;
  * `noteHold`, `noteRole` -- the notes of a hold and of a role.
-/
import ConsensFlow.Receiving

namespace ConsensFlow

open Lib Lib.Text Txn

/-! ## 1. Asked -/

/-- A question for a coordinator. `questions` is what the check of a harness's question tool's
    own JSON made of it. -/
structure NewQuestion where
  sender : Option String := none
  whom : String
  body : Option String := none
  task : Option Nat := none
  questions : Option (List Question) := none
  urgent : Bool := false
  deriving DecidableEq, Repr

/-- `render_questions`: what an inbox or a window shows. -/
def renderQuestions (questions : List Question) : String :=
  "\n\n".intercalate (questions.map fun q => "\n".intercalate (s!"{q.header}: {q.question}" ::
    q.options.map fun o => match o.description with
      | none => s!"- {o.label}"
      | some description => s!"- {o.label}: {description}"))

/-- The pause a tell makes first: one that is the teller's already is left, and one of its
    project's suspension is taken over. -/
def pauseForTell (project number : Nat) (sender : String) : LedgerM Unit := do
  let task ← taskRow project number
  let s ← state
  if task.state == .paused && !s.pausedByConsensflow task then do
    let _ ← takeOverPause task sender
    pure ()
  else do
    let _ ← pauseTask project number (some sender) none
    pure ()

/-- The window that asks about its task, and the task as it is now. -/
def askingTask (project : Nat) (sender : String) (q : NewQuestion) : DeskM (Option Task) :=
  match q.task with
  | none => pure none
  | some number => do
    let row ← taskRow project number
    let asker ← participantByHandle project sender
    pure (if row.assignee == some asker.id && !q.urgent then some row else none)

/-- The question itself, after the pause of a tell. -/
def sendQuestion (project : Nat) (sender : String) (q : NewQuestion) : DeskM Message := do
  let asking ← askingTask project sender q
  let s ← state
  let m ← send project
    { sender := some sender, whom := q.whom, kind := .question, task := q.task
      body := match q.questions with
        | some questions => renderQuestions questions
        | none => q.body.getD ""
      questions := q.questions, urgent := q.urgent
      doorClosed := asking.any s.doorBornClosed }
  match asking with
  | some row => reconcile row.id
  | none => pure ()
  pure m

/-- `ask`. -/
def ask (project : Nat) (q : NewQuestion) : LedgerM Message := do
  let sender ← found q.sender
    (.wrong "unknown-participant" "a question names who asks it")
  inWrite do
    let whom ← participantByHandle project q.whom
    require (whom.role != .human)
      (.refused "ask-in-your-terminal"
        "the human is asked in the chief's terminal, not on the board" 403)
    doWhen q.urgent (do
      let number ← found q.task
        (.refused "unknown-task" s!"no task T-undefined in project {project}" 404)
      pauseForTell project number sender)
    sendQuestion project sender q

/-! ## 2. Answered -/

/-- `render_choices`. -/
def renderChoices (questions : List Question) (choices : List (List String)) : String :=
  "\n".intercalate ((questions.zip choices).map fun (q, picks) =>
    s!"{q.header}: {commas picks}")

/-- `finished_task_takes_no_answer`. -/
def finishedTaskTakesNoAnswer (task : Task) : LedgerError :=
  let n := task.number
  match task.state with
  | .cancelled =>
    .refused "task-cancelled" s!"T-{n} is cancelled: nobody waits for this answer" 409
  | .accepted => .refused "task-accepted"
      s!"T-{n} is accepted, so it is finished and nobody waits for this answer: to give what is still wanted, add a task for the same window with cf task add --after T-{n} \"…\""
      409
  | _ => .refused "task-failed"
      s!"T-{n} failed, so nobody waits for this answer: reopen T-{n} to go on with it (cf task reopen T-{n} \"…\")"
      409

/-- Whether a question has any answer, whatever became of it. -/
def Ledger.hasAnyAnswer (s : Ledger) (question : Nat) : Bool :=
  s.messages.rows.any fun a => a.replyTo == some question && a.kind == .answer

/-- Who may answer a question, and whether it still takes an answer. -/
def requireAnswerable (q : Message) (answerer : Participant) (fromWindow : Bool) : DeskM Unit := do
  let s ← state
  require (answerer.id == q.recipient || fromWindow)
    (.refused "not-your-question"
      s!"the question was put to {s.handleOf q.recipient}, not {answerer.handle}" 403)
  match q.task.bind s.tasks.get? with
  | some task => require (!task.state.finished) (finishedTaskTakesNoAnswer task)
  | none => pure ()
  require (!s.standing q.id) (.refused "already-answered" s!"m-{q.id} has its answer" 409)
  let because := match q.reason with
    | some reason => s!" ({reason})"
    | none => ""
  require (!(q.state == .cancelled && !s.hasAnyAnswer q.id))
    (.refused "question-withdrawn"
      s!"m-{q.id} was withdrawn{because}: nobody waits for this answer" 409)

/-- The text of an answer, and its choices: those read of it where the question has options. -/
def answerText (q : Message) (body : String) (choices : Option (List (List String))) :
    String × Option (List (List String)) :=
  match q.questions with
  | some questions => (renderChoices questions (choices.getD []), some (choices.getD []))
  | none => (body, none)

/-- `answer`. `choices` is what the check of the picks made of them, for a question with
    options. -/
def answer (question sender : Nat) (body : String) (choices : Option (List (List String))) :
    DeskM Message := inWrite do
  let s ← state
  let q ← found ((s.messages.get? question).filter fun m => m.kind == .question)
    (notAQuestion question)
  let answerer ← participantRow sender
  let fromWindow := q.questions.isSome && q.sender == some answerer.id
  requireAnswerable q answerer fromWindow
  let text := (answerText q body choices).1
  requireText text "body" maxBody
  requireActive answerer
  let asker ← participantOf q.sender
  requireActive asker
  let id ← queue q.project
    { whom := asker.id, sender := some answerer.id, kind := .answer, task := q.task
      replyTo := some question, body := text, fromWindow, choices := (answerText q body choices).2 }
  logSent q.project id
  -- answered before the one asked saw it, or by the asker's own window: it goes no further
  doWhen (q.state == .gated || (q.state == .queued && fromWindow))
    (withdraw question s!"answered by @{answerer.handle}")
  settleAnswered question
  let a ← knownMessage id
  match q.task with
  | some task => doWhen (a.state == .read) (reconcile task)
  | none => pure ()
  pure a

/-! ## 3. Words told -/

/-- `tell_queued`: words for the window of a task that has not begun, or whose resume waits. -/
def tellQueued (project number : Nat) (sender body : String) : DeskM Message := do
  requireText body "body" maxBody
  inWrite do
    let _ ← participantByHandle project sender
    let task ← taskRow project number
    let s ← state
    let notIn := task.state.held && (s.resumeWordsOf task).any fun m => m.state != .delivering
    doWhen (!notIn) (requireTaskState task (· == .queued) "keep words for the window of")
    let window ← participantOf task.assignee
    require window.isMembers (ownWorkPaused number)
    send project { sender := some sender, whom := window.handle, body, task := some number }

/-- `note_role`: a note that says a role to the conversation it goes to. -/
def noteRole (project : Nat) (whom body role : String) : DeskM Message :=
  send project { whom, body, role := some role }

/-- Why a task is held, as its requester is told. -/
inductive HoldNote where
  | quota (until_ : String)
  | unavailable (because : String)
  | moved (because : String)
  | busy (because : String) (tiered : Bool)
  deriving DecidableEq, Repr

def HoldNote.render (number : Nat) (handle : String) : HoldNote → String
  | quota until_ => renderHold number handle until_
  | unavailable because => renderUnavailable number handle because
  | moved because => renderMoved number handle because
  | busy because tiered => renderBusy number handle because tiered

/-- `note_hold`, `note_hold_unavailable`, `note_hold_moved`, `note_hold_busy`. -/
def noteHold (project : Nat) (whom : String) (number : Nat) (handle : String) (why : HoldNote) :
    DeskM Message :=
  sendNote project whom (some number) (why.render number handle)

end ConsensFlow
