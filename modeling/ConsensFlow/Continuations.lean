/-
  File:      ConsensFlow/Continuations.lean
  Subject:   WHAT NO LONGER APPLIES IS WITHDRAWN (`messages/continuations.rs`, `queue.rs`,
             `messages/carrying.rs`, `messages/delivery.rs`).

  * `continuationTasks` -- a note that tells a window to go on, told by its words;
  * `withdrawContinuations`, `dropContinuations`, `withdrawnIfStale` -- such a note lives only
    while its task is at work in its window;
  * `releaseCarried` -- what a cancelled or failed carrier carried is its own again;
  * `cancelMessage`, `withdrawGated`, `withdrawResult`, `dropQueued` -- a message not delivered
    that goes.
-/
import ConsensFlow.Mail

namespace ConsensFlow

open Lib Lib.Text Txn

/-! ## 1. The words that tell a window to go on -/

def stoppedWords : String := "ConsensFlow stopped while you were working on "
def quitWords : String := "ConsensFlow quit while you were working on "
def inTheTurn : String := ", in "

/-- The tasks as a continuation names them. -/
def named (tasks : List Int) : String := ", ".intercalate (tasks.map fun n => s!"T-{n}")

/-- The words of a continuation of task `number`. -/
def continuation (number : Int) : String := s!"{stoppedWords}{named [number]}. {resumeWords}"

/-- The words of a continuation of task `number` whose window was cut in `turn`. -/
def continuationIn (number : Int) (turn : String) : String :=
  s!"{stoppedWords}{named [number]}{inTheTurn}{turn}. {resumeWords}"

/-- The turn a window was cut in, as a note names it: when the message that began it came, where
    its record says, and its words. -/
def cutTurn (at_ : Option String) (words : String) : String :=
  match at_ with
  | some at_ => s!"the turn that began at {at_} with \"{words}\""
  | none => s!"the turn that began with \"{words}\""

/-- The tasks a text names, each after its `T-`. -/
def taskList (list : List Char) : Option (List Int) :=
  (splitAll ", ".toList list).mapM fun w => (stripPrefix "T-".toList w).bind parseI64

/-- The tasks a body that begins with `start` names, and the turn it says, if it reads back. -/
def continuationFrom (start : String) (body : String) : Option (List Int) := do
  let rest ← stripPrefix start.toList body.toList
  let said ← stripSuffix s!". {resumeWords}".toList rest
  -- the turn comes after the tasks, in this build's words alone
  let (list, turn) := match splitOnce inTheTurn.toList said with
    | some (list, turn) =>
      if start == stoppedWords && (stripPrefix "the turn that began ".toList turn).isSome then
        (list, some turn)
      else (said, none)
    | none => (said, none)
  let tasks ← taskList list
  let tail := match turn with
    | some turn => inTheTurn ++ String.ofList turn
    | none => ""
  if s!"{start}{named tasks}{tail}. {resumeWords}" == body then some tasks else none

/-- The tasks a continuation names, in its words or in those of earlier builds; none for any
    other text. -/
def continuationTasks (body : String) : Option (List Int) :=
  if (stripPrefix stoppedWords.toList body.toList).isSome then continuationFrom stoppedWords body
  else if (stripPrefix quitWords.toList body.toList).isSome then continuationFrom quitWords body
  else none

/-! ## 2. Withdrawing -/

/-- A message withdrawn, whatever its state. -/
def withdraw (id : Nat) (reason : String) : DeskM Unit :=
  setMessage id fun m => { m.to .cancelled with reason := some reason }

/-- Withdraws each of `ids` with `reason`, as the log says. -/
def withdrawEach (project : Nat) (ids : List Nat) (reason : String) : DeskM Unit :=
  ids.forM fun id => do
    withdraw id reason
    log project (.other "delivery.cancelled" (some id))

/-- Withdraws a message where it is a note of ConsensFlow's own still queued: whether it was. -/
def withdrawQueuedNote (id : Nat) (reason : String) : DeskM Bool := do
  let s ← state
  match s.messages.get? id with
  | none => pure false
  | some m =>
    if m.kind != .note || m.sender.isSome || m.state != .queued then pure false
    else do
      withdrawEach m.project [m.id] reason
      pure true

/-- The continuations about `task` among the messages `p` holds of: ConsensFlow's own notes in
    their words, tied to the task or naming it to the window that has it. -/
def Ledger.continuationsOf (s : Ledger) (task : Task) (p : Message → Bool) : List Message :=
  s.messages.rows.filter fun m =>
    m.project == task.project && m.sender.isNone && m.kind == .note && p m &&
      (m.task == some task.id || task.assignee == some m.recipient) &&
      (continuationTasks m.body).any fun names =>
        m.task == some task.id || names.contains (task.number : Int)

/-- `task` moves on from the work its window was told to go on with: what told the window so
    and was not handed to it is withdrawn, in the write that moves the task. -/
def withdrawContinuations (task : Task) (to_ : TaskState) : DeskM Unit := do
  let s ← state
  let unsent := s.continuationsOf task fun m =>
    m.state == .queued || (m.state == .delivering && m.handedAt.isNone)
  withdrawEach task.project (unsent.map (·.id)) s!"T-{task.number} is {to_.word} now"

/-- `task` goes from `window` to another: whatever told `window` to go on with it goes. -/
def dropContinuations (task : Task) (window : Nat) : DeskM Unit := do
  let s ← state
  let pending := s.continuationsOf task fun m => m.state == .queued || m.state == .delivering
  withdrawEach task.project ((pending.filter fun m => m.recipient == window).map (·.id))
    s!"T-{task.number} went from its window"

/-- Why a message, a continuation, is no longer to be given to its window. -/
def Ledger.stale (s : Ledger) (m : Message) : Option String :=
  if m.kind != .note || m.sender.isSome || !(m.state == .queued || m.state == .delivering) then
    none
  else match continuationTasks m.body with
    | none => none
    | some [number] =>
      match s.tasks.rows.find? fun t => t.project == m.project && (t.number : Int) == number with
      | some t =>
        if t.assignee == some m.recipient then
          if t.state.active then none else some s!"T-{number} is {t.state.word} now"
        else some s!"T-{number} went from its window"
      | none => some s!"T-{number} went from its window"
    | some _ => some "it names several tasks"

/-- A message about to be handed to its window or back in its queue, withdrawn in this write if
    it is a continuation whose task is no longer at work there: whether it was. -/
def withdrawnIfStale (m : Message) : DeskM Bool := do
  let s ← state
  match s.stale m with
  | none => pure false
  | some reason => do
    withdrawEach m.project [m.id] reason
    pure true

/-- Each of `ids` that came back to its queue, withdrawn if it is stale. -/
def withdrawStaleAmong (ids : List Nat) : DeskM Unit :=
  ids.forM fun id => do
    let s ← state
    match s.messages.get? id with
    | none => pure ()
    | some m => do
      let _ ← withdrawnIfStale m
      pure ()

/-! ## 3. What a carrier carried -/

/-- The rows a carrier carries and has not yet delivered, oldest first. -/
def Ledger.carried (s : Ledger) (carrier : Nat) : List Message :=
  s.messages.rows.filter fun m => m.carriedBy == some carrier && m.state == .queued

/-- Whether a queued row about `task` rides in a message of it that was cancelled or failed. -/
def Ledger.strandedUnder (s : Ledger) (task : Nat) (m : Message) : Bool :=
  m.task == some task && m.state == .queued &&
    s.messages.rows.any fun c => m.carriedBy == some c.id && c.task == some task &&
      (c.state == .cancelled || c.state == .failed)

/-- What a carrier that was cancelled, or failed, carried is its own again. -/
def releaseCarried (task : Nat) : DeskM Unit := do
  let s ← state
  let released := s.messages.rows.filter (s.strandedUnder task)
  setMessages (s.strandedUnder task) (fun m => { m with carriedBy := none, handedAt := none })
  withdrawStaleAmong (released.map (·.id))

/-- A task's messages still held at the gate, withdrawn. -/
def withdrawGated (task : Nat) (reason : String) : DeskM Unit := do
  setMessages (fun m => m.task == some task && m.state == .gated)
    fun m => { m.to .cancelled with reason := some reason }
  releaseCarried task

/-- The result of a task that was decided before its requester was given it, withdrawn. -/
def withdrawResult (task : Task) (why : String) : DeskM Unit :=
  setMessages (fun m => m.task == some task.id && m.kind == .result && m.state == .queued)
    fun m => { m.to .cancelled with reason := some s!"T-{task.number} {why}" }

/-- A cancelled or failed task's queued messages are never delivered. -/
def dropQueued (task : Nat) : DeskM Unit :=
  setMessages (fun m => m.task == some task && (m.state == .queued || m.state == .gated))
    fun m => m.to .cancelled

/-- A message not yet delivered that no longer applies: it will not be delivered, and what it
    carried is its own again. -/
def cancelMessage (id : Nat) (reason : String) : DeskM Message := do
  requireText reason "reason" 1000
  inWrite do
    let s ← state
    let m ← found ((s.messages.get? id).filter fun m =>
        m.state == .queued || m.state == .delivering)
      (.refused "not-pending" s!"message {id} is not waiting to be delivered" 409)
    setMessage id fun m => { m.to .cancelled with reason := some reason }
    log m.project (.other "delivery.cancelled" (some id))
    match ← messageTask id with
    | some t => releaseCarried t.id
    | none => pure ()
    knownMessage id

end ConsensFlow
