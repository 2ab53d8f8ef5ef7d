/-
  File:      ConsensFlow/Finishing.lean
  Subject:   A TASK FINISHED (`tasks/finishing.rs`, `tasks/own_steps.rs`): its result recorded,
             accepted or sent back; called off, or given up; and taken off the board for good.

  * `recordCounted` -- a result, or the chief's own step finished by its word;
  * `accepted` -- what both accepts do: the task moves, and what waits for it is released;
  * `reopenTask` -- sent back to its window;
  * **`callOff`** -- a task called off, refused while an open or paused task waits for it
    (`requireUnawaited`);
  * `failAs` -- the daemon gives up on a task;
  * `deleteTasks` -- finished tasks leave the board.
-/
import ConsensFlow.Pausing

namespace ConsensFlow

open Lib Lib.Text Txn

/-! ## 1. The chief's own step -/

/-- Why what of the step had not reached its chief goes no further. -/
def doneBefore (task : Task) (chief : String) : String :=
  s!"T-{task.number} was done before it came back to @{chief}"

/-- `withdrawn_late`: a task message of the chief's own step finished while its paste was under way
    goes no further. Whether it was withdrawn. -/
def withdrawnLate (m : Message) (task : Task) : DeskM Bool := do
  if m.kind != .task || task.state.held then pure false
  else do
    let own ← isOwnStep task
    if !own then pure false
    else do
      let chief ← participantRow task.requester
      let _ ← cancelMessage m.id (doneBefore task chief.handle)
      pure true

/-- `own_steps::finish`: the step is accepted with its result, there being nobody else to decide
    it. -/
def finishOwn (project : Nat) (task : Task) (body : String) : LedgerM TaskMoved := do
  requireTaskState task TaskState.held "finish"
  let chief ← participantRow task.requester
  let s ← state
  let withdrawn := (s.messages.rows.filter fun m => m.task == some task.id &&
    m.recipient == chief.id && (m.state == .queued || m.state == .gated)).map (·.id)
  let landing := (s.messages.rows.filter fun m => m.task == some task.id &&
    m.recipient == chief.id && m.state == .delivering && m.kind == .task).map (·.id)
  setMessages (fun m => m.task == some task.id && m.recipient == chief.id &&
      (m.state == .queued || m.state == .gated))
    fun m => { m.to .cancelled with reason := some (doneBefore task chief.handle) }
  let id ← queue project
    { whom := task.requester, sender := task.assignee, kind := .result, task := some task.id
      body, fromWindow := true }
  moveTask task .done { message := some id }
  let done ← taskById task.id
  moveTask done .accepted { by_ := some chief.handle }
  releaseReady project
  let row ← taskById task.id
  let s ← state
  pure { task := row, message := s.messages.get? id
         withdrawn := withdrawn.filterMap s.messages.get?
         landing := landing.filterMap s.messages.get? }

/-! ## 2. A result -/

/-- `notes_waiting`: whether a note to a window about its task is still on its way to it. A
    continuation is none. -/
def Ledger.notesWaiting (s : Ledger) (window task : Nat) : Bool :=
  s.messages.rows.any fun m => m.task == some task && m.recipient == window && m.kind == .note &&
    !m.urgent && (m.state == .queued || m.state == .gated || m.state == .delivering) &&
    (m.sender.isSome || (continuationTasks m.body).isNone)

def wordsOnTheirWay (number : Nat) : LedgerError :=
  .refused "words-on-their-way"
    s!"T-{number} has words on their way to you: run cf task done again once you have read them" 409

/-- Whether a question has an answer that stands. -/
def Ledger.standing (s : Ledger) (question : Nat) : Bool :=
  s.messages.rows.any fun a => a.replyTo == some question && a.kind == .answer &&
    a.state != .cancelled && a.state != .failed

/-- `withdraw_open_questions`: the questions a task's window asked, still open, when the task is
    finished. -/
def withdrawOpenQuestions (task : Task) (why : String) : DeskM Unit :=
  match task.assignee with
  | none => pure ()
  | some window => do
    let s ← state
    setMessages (fun m => m.task == some task.id && m.sender == some window &&
        m.kind == .question && !m.urgent && (m.state == .queued || m.state == .delivering ||
          m.state == .gated || m.state == .delivered || m.state == .read) && !s.standing m.id)
      fun m => { m.to .cancelled with reason := some s!"T-{task.number} {why}" }

/-- The words that resumed a task at work, not yet in: a window's own result is refused for them,
    and a Finish takes them with it. -/
def resumeWordsGo (number : Nat) (task : Task) (byWord : Bool) : DeskM Unit := do
  let s ← state
  match if task.state.active then s.resumeWordsOf task else none with
  | none => pure ()
  | some words => do
    require byWord (wordsOnTheirWay number)
    doWhen (words.state != .delivering) (do
      withdraw words.id s!"T-{number} was finished before they went in"
      releaseCarried task.id)

/-- What is checked and withdrawn before a result is written. -/
def beforeResult (number : Nat) (task : Task) (byWord : Bool) : DeskM Unit := do
  let s ← state
  require (!(task.assignee.any fun window => s.notesWaiting window task.id))
    (wordsOnTheirWay number)
  resumeWordsGo number task byWord
  doWhen (task.state == .paused) (do
    withdrawPausedAnswers task "finished"
    leavePauseNotes task "finished" .movesOn)
  doWhen byWord (withdrawOpenQuestions task "was finished")

/-- The doors of the questions its window asked on a task are shut, where one had it. -/
def shutDoorsOf (task : Task) : DeskM Unit :=
  match task.assignee with
  | some window => shutDoors task window
  | none => pure ()

/-- `record_counted`: the assignee's answer finishes the task and is queued for whoever asked for
    it. `byWord`: the chief or the human finishes it. -/
def recordCounted (project number : Nat) (body : String) (states : TaskState → Bool)
    (byWord : Bool) : LedgerM TaskMoved := do
  requireText body "body" maxBody
  inWrite do
    let task ← taskRow project number
    let own ← isOwnStep task
    if own then finishOwn project task body
    else do
      requireTaskState task states "record a result for"
      beforeResult number task byWord
      let id ← queue project
        { whom := task.requester, sender := task.assignee, kind := .result, task := some task.id
          body }
      moveTask task .done { message := some id }
      releaseReady project
      doWhen byWord (shutDoorsOf task)
      let row ← taskById task.id
      let s ← state
      pure { task := row, message := s.messages.get? id }

/-- `FINISHABLE_TASK_STATES`. -/
def TaskState.finishable : TaskState → Bool
  | working | waiting | paused => true
  | _ => false

/-- `record_result`. -/
def recordResult (project number : Nat) (body : String) : LedgerM TaskMoved :=
  recordCounted project number body TaskState.active false

/-- `record_finished`. -/
def recordFinished (project number : Nat) (body : String) : LedgerM TaskMoved :=
  recordCounted project number body TaskState.finishable true

/-! ## 3. Accepted -/

/-- `require_result_received`: a result at the gate is the human's to decide. -/
def requireResultReceived {R : Ledger → Ledger → Prop} [Frame R] (task : Task) (by_ : String) :
    LedgerTxn R Unit := do
  let s ← state
  require (by_ == "human" || !(s.messages.rows.any fun m => m.task == some task.id &&
      m.kind == .result && m.state == .gated))
    (.refused "result-gated"
      s!"T-{task.number}'s result waits for the human's approval: it reaches you once they pass it on"
      409)

/-- What is still queued for a task's window when its result is decided. -/
def withdrawForWindow (task : Task) (was : String) : DeskM Unit :=
  match task.assignee with
  | none => pure ()
  | some id => do
    let member ← participantRow id
    setMessages (fun m => m.task == some task.id && m.recipient == member.id && m.state == .queued)
      fun m => { m.to .cancelled with
        reason := some s!"T-{task.number} was {was} before it reached @{member.handle}" }

/-- What `accepted` withdraws and writes before the task moves. -/
def beforeAccepted (project : Nat) (task : Task) (by_ : String) (checked : Option (Nat × String)) :
    DeskM Unit := do
  requireResultReceived task by_
  withdrawGated task.id s!"accepted by @{by_}"
  withdrawResult task "was accepted"
  withdrawForWindow task "accepted"
  match checked with
  | some (author, words) => do
    let _ ← queue project
      { whom := author, sender := some author, kind := .result, task := some task.id, body := words
        fromWindow := true }
    pure ()
  | none => pure ()

/-- `accepted`: what both accepts do. -/
def accepted (project : Nat) (task : Task) (by_ : String) (checked : Option (Nat × String)) :
    LedgerM Task := do
  beforeAccepted project task by_ checked
  moveTask task .accepted { by_ := some by_ }
  releaseReady project
  shutDoorsOf task
  taskById task.id

/-- `accept_task`. -/
def acceptTask (project number : Nat) (by_ : String) : LedgerM Task := inWrite do
  let _ ← participantByHandle project by_
  let task ← taskRow project number
  requireTaskState task (· == .done) "accept"
  accepted project task by_ none

/-- `accept_failed_task`: on the words of what was checked, which are its result. -/
def acceptFailedTask (project number : Nat) (by_ checked : String) : LedgerM Task := inWrite do
  let author ← participantByHandle project by_
  let task ← taskRow project number
  requireTaskState task (· == .failed) "accept"
  require (!(jsTrim checked).isEmpty)
    (.wrong "checked-needed"
      s!"T-{number} failed: accepting it takes the words of what you checked, which are its result: cf task accept T-{number} \"what I checked\"")
  requireText checked "body" maxBody
  accepted project task by_ (some (author.id, checked))

/-! ## 4. Sent back -/

/-- A session that left is brought back; another window is there as it is. -/
def backAgain (window : Participant) : LedgerM Participant :=
  if window.memberId.isSome then bringBack window else pure window

/-- The window a task is sent back to: a session that left is brought back. -/
def reopenInto (number : Nat) (task : Task) : LedgerM Participant := do
  let found ← participantOf task.assignee
  let continues ← canContinue found
  require (found.memberId.isNone || continues)
    (.refused "session-ended" s!"@{found.handle} has ended: open the task for its tier instead" 409)
  requireFree found (.sentBack number)
  let assignee ← backAgain found
  requireActive assignee
  pure assignee

/-- `reopen_task`. -/
def reopenTask (project number : Nat) (by_ body : String) : LedgerM TaskMoved := do
  requireText body "body" maxBody
  inWrite do
    let author ← participantByHandle project by_
    let task ← taskRow project number
    requireTaskState task (fun st => st == .done || st == .failed) "reopen"
    requireResultReceived task by_
    let assignee ← reopenInto number task
    withdrawGated task.id s!"sent back by @{by_}"
    withdrawResult task "was sent back"
    let s ← state
    let id ← queueCarrier project
      { whom := assignee.id, sender := some author.id, kind := .task, task := some task.id
        body := s.carrierBody task assignee.id body } task
    moveTask task .queued { by_ := some by_, message := some id }
    tellSentBack task assignee.id by_
    let row ← taskById task.id
    let m ← knownMessage id
    pure { task := row, message := some m }

/-! ## 5. Called off -/

/-- How a task is called off: cancelled, or its brief declined at the gate. -/
inductive Ending where
  | cancelled | declined
  deriving DecidableEq, Repr

/-- The refusal to call off a task that others wait for. -/
def waitedFor (task : Task) (ending : Ending) (waiting : List Nat) : LedgerError :=
  let n := task.number
  let (verb, them) := match waiting with
    | [only] => ("waits", s!"T-{only}")
    | _ => ("wait", "them")
  let instead := match ending, task.state with
    | .cancelled, .done => s!"accept T-{n}, or cancel {them} first"
    | .cancelled, .failed =>
      s!"cancel {them} first, reopen T-{n} and let it finish, or accept it with what you checked"
    | .cancelled, _ => s!"cancel {them} first, or let T-{n} finish"
    | .declined, _ => s!"cancel {them} first, or pass T-{n} on"
  .refused "waited-for"
    s!"T-{n} cannot be cancelled while {taskNumbers waiting} {verb} for it: {instead}" 409

/-- `require_unawaited`: a task an open or paused task waits for is not called off. -/
def requireUnawaited {R : Ledger → Ledger → Prop} [Frame R] (task : Task) (ending : Ending) :
    LedgerTxn R Unit := do
  let s ← state
  require (s.waiters task.id).isEmpty (waitedFor task ending (s.waiters task.id))

def TaskState.cancellable : TaskState → Bool
  | opened | queued | working | waiting | paused | done | failed => true
  | accepted | cancelled => false

/-- What a cancel called off: the task as it was, the member's window that had begun on it, and
    the words told to its window that it never had. -/
structure CalledOff where
  task : Task
  window : Option Participant
  dropped : List Message

/-- What is withdrawn with a task called off: what asks for the decision where it is done, and
    otherwise all of it still on its way, but the warnings on theirs. The warnings its notes said,
    to be said again. -/
def withdrawCalledOff (task : Task) (by_ : String) : DeskM (List String) :=
  if task.state = .done then do
    withdrawGated task.id s!"cancelled by @{by_}"
    withdrawResult task "was cancelled"
    withdrawForWindow task "cancelled"
    pure []
  else do
    let s ← state
    let warnings := s.warningsQueued task
    let onTheirWay := s.warningsOnTheirWay task
    setMessages (fun m => m.task == some task.id && (m.state == .queued || m.state == .delivering ||
        m.state == .gated) && !onTheirWay.contains m.id)
      fun m => { m.to .cancelled with reason := some s!"cancelled by @{by_}" }
    pure warnings

/-- Whether a task message of the task went into the member's window. -/
def Ledger.began (s : Ledger) (task : Nat) (assignee : Participant) : Bool :=
  assignee.isMembers && s.messages.rows.any fun m => m.task == some task &&
    m.recipient == assignee.id && m.kind == .task && (m.state == .delivering || m.state == .delivered)

/-- The window that has a task, if one does. -/
def windowOf {R : Ledger → Ledger → Prop} [Frame R] (task : Task) :
    LedgerTxn R (Option Participant) :=
  match task.assignee with
  | some id => some <$> participantRow id
  | none => pure none

/-- **`call_off`**: the cancel itself. -/
def callOff (project number : Nat) (by_ : String) (ending : Ending) : LedgerM CalledOff := do
  let _ ← participantByHandle project by_
  let task ← taskRow project number
  requireTaskState task TaskState.cancellable "cancel"
  doWhen (task.state == .done) (requireResultReceived task by_)
  requireUnawaited task ending
  let s ← state
  let dropped := s.unreceived task false
  let assignee ← windowOf task
  let began := assignee.any (s.began task.id)
  let warnings ← withdrawCalledOff task by_
  leavePauseNotes task "cancelled" .movesOn
  sayAgain task "cancelled" warnings
  moveTask task .cancelled { by_ := some by_ }
  releaseReady project
  pure
    { task, dropped
      window := assignee.filter fun w => began && task.state != .done && w.leftAt.isNone }

/-- `cancel_task`: and whoever asked for it hears so in the same step. -/
def cancelTask (project number : Nat) (by_ : String) : LedgerM Task := inWrite do
  let off ← callOff project number by_ .cancelled
  let requester ← participantRow off.task.requester
  let lead := s!"@{by_} cancelled T-{number} ({off.task.title})"
  let stopped := match off.window with
    | some window => s!": @{window.handle}'s window was stopped"
    | none => ""
  let s ← state
  doWhen (requester.handle != by_) (do
    let _ ← sendNote project requester.handle (some number)
      s!"{lead}{stopped}.{saidTo s off.dropped requester.handle}"
    pure ())
  tellTheOthers off.task off.dropped s!"{lead}." [by_, requester.handle]
  taskById off.task.id

/-! ## 6. Given up -/

/-- `tell_other_waiters`: the requester of each task that waits for the failed one, but `named`. -/
def tellOtherWaiters (task : Task) (named : Option String) : DeskM Unit := do
  let s ← state
  (s.waiters task.id).forM fun waiting => do
    let waiter ← taskRow task.project waiting
    let requester ← participantRow waiter.requester
    doWhen (named != some requester.handle) (do
      let _ ← sendNote task.project requester.handle (some waiting)
        (waitsForFailed waiting task.number)
      pure ())

/-- `tell_waiting_for_failed`. -/
def tellWaitingForFailed (project number : Nat) (named : String) : DeskM Unit := inWrite do
  let task ← taskRow project number
  doWhen (task.state == .failed) (tellOtherWaiters task (some named))

def TaskState.failable : TaskState → Bool
  | opened | queued | working | waiting => true
  | _ => false

/-- What is told of a failure. -/
def tellFailed (number : Nat) (task : Task) (reason cause : String) (givenUp : Bool)
    (told : List Message) : DeskM Unit := do
  let requester ← participantRow task.requester
  if givenUp then do
    tellEach task told [requester.handle] fun s teller =>
      s!"T-{number} failed: {reason}{waitingForTheReopen s told (some teller)}.{reopenOrAccept number}"
    let s ← state
    tellFailure task requester.handle reason (waitingForTheReopen s told none) cause
    tellOtherWaiters task (some requester.handle)
  else do
    tellTheOthers task told s!"T-{number} failed: {reason}." [requester.handle]
    tellOtherWaiters task none

/-- The queued messages of a failed task are never delivered, but the words told to its window
    where the daemon gave it up. -/
def dropOf (task : Nat) (givenUp : Bool) : DeskM Unit :=
  if givenUp then dropQueuedButTold task else dropQueued task

/-- They are dropped, and the answers of its paused window put back. -/
def dropButAnswers (task : Task) (givenUp : Bool) : LooseM Unit := do
  let s ← state
  let answers := (s.answerNotes task fun m => m.state == .queued).map (·.1)
  dropOf task.id givenUp
  putBackPausedAnswers answers

section Dropped

variable {s s' : Ledger} {task : Task} {givenUp : Bool} {u : Unit}

/-- What putting back the notes `ids` leaves of a row. -/
def PutBack (ids : List Nat) (x x' : Message) : Prop :=
  x' = x ∨ x.id ∈ ids ∧ x.kind = .note ∧ x'.state = .queued

/-- Each row is as it was, or put back. -/
def Ledger.PutsBack (ids : List Nat) (s s' : Ledger) : Prop :=
  ∀ x' ∈ s'.messages.rows, ∃ x ∈ s.messages.rows, x'.id = x.id ∧ Lodged x x' ∧ PutBack ids x x'

theorem Ledger.PutsBack.refl (ids : List Nat) (s : Ledger) : s.PutsBack ids s :=
  fun x hx => ⟨x, hx, rfl, ⟨rfl, .inl rfl⟩, .inl rfl⟩

theorem Ledger.PutsBack.trans {ids : List Nat} {a b c : Ledger} (h : a.PutsBack ids b)
    (k : b.PutsBack ids c) : a.PutsBack ids c := by
  intro z hz
  obtain ⟨y, hy, ez, lz, pz⟩ := k z hz
  obtain ⟨x, hx, ey, ly, py⟩ := h y hy
  refine ⟨x, hx, ez.trans ey, ⟨lz.stamp.trans ly.stamp, ?_⟩, ?_⟩
  · rcases lz.rides with e | e
    · rw [e]
      exact ly.rides
    · exact .inr e
  · rcases pz with e | ⟨there, note, queued⟩
    · exact e ▸ py
    · refine .inr ⟨ey ▸ there, ?_, queued⟩
      rw [← note]
      exact (congrArg Stamp.kind ly.stamp).symm

theorem putBackPausedAnswers_rows {ids : List Nat}
    (h : (putBackPausedAnswers ids).run s = .ok (u, s')) : s.PutsBack ids s' := by
  refine run_forM_ok (P := Ledger.PutsBack ids) (.refl ids) .trans (fun id there a b ran => ?_) h
  rw [setLoosely_ok ran]
  intro x' hx'
  obtain ⟨x, hx, rfl⟩ := Table.mem_alter.mp hx'
  refine ⟨x, hx, altered_message_id _ _ x, altered_lodged fun _ => ⟨rfl, .inl rfl⟩, ?_⟩
  unfold Table.altered
  split
  · next note =>
    simp only [Message.ownNote, Bool.and_eq_true, beq_iff_eq] at note
    exact .inr ⟨note.1 ▸ there, note.2.1, rfl⟩
  · exact .inl rfl

theorem kept_putBack {ids : List Nat} (h : (putBackPausedAnswers ids).run s = .ok (u, s')) :
    Kept { loose := True } s s' := ((putBackPausedAnswers ids).within h).toKept

/-- What is put back waited as the messages were dropped, so what was over stays so. -/
theorem dropButAnswers_tight (h : (dropButAnswers task givenUp).run s = .ok (u, s')) :
    Tight .none s s' := by
  obtain ⟨s0, s1, h1, h⟩ := run_bind_ok.mp h
  obtain ⟨rfl, rfl⟩ := run_state_ok.mp h1
  obtain ⟨u2, s2, h2, h⟩ := run_bind_ok.mp h
  have k2 : Kept .none s s2 := (lifted_within h2).toKept
  have back := putBackPausedAnswers_rows h
  refine ⟨fun m hm m' hm' e c hc begun _ ended => ?_, fun hands hj r => ?_⟩
  · obtain ⟨x, hx, ex, lodged, put⟩ := back m' hm'
    rcases put with rfl | ⟨there, -, -⟩
    · exact (k2.tight fun k => k).ended m hm m' hx e c hc begun (fun k => k) ended
    · -- it was queued, so it was not over
      obtain ⟨n, hn, it⟩ := List.mem_map.mp there
      obtain ⟨y, hy, said⟩ := List.mem_filterMap.mp hn
      split at said
      · next ask =>
        simp only [Bool.and_eq_true, beq_iff_eq] at ask
        obtain ⟨t, -, rfl⟩ := Option.map_eq_some_iff.mp said
        obtain rfl : y = m := Table.eq_of_key hy hm (it.trans (ex.symm.trans e))
        have was := ended.2
        rw [ask.2] at was
        exact was.elim
      · cases said
  · refine riding_of_rows (kept_putBack h).ids back (fun x x' put sent => ?_)
      (fun x x' c c' put putC _ _ e _ ride => ?_) ((k2.tight fun k => k).riding hands hj r)
    · rcases put with rfl | ⟨-, -, queued⟩
      · exact .inl sent
      · rw [queued] at sent
        cases sent
    · rcases put with rfl | ⟨-, -, queued⟩
      · rcases putC with rfl | ⟨-, note, -⟩
        · exact ride.lies.imp id ((kept_putBack h).human _)
        · rw [ride.kind] at note
          cases note
      · unfold Message.Lies
        rw [queued]
        trivial

end Dropped

/-- What is withdrawn of a failed task: its queued messages, but the words told to its window
    where the daemon gave it up, and but the answers of its paused window. -/
def dropFailed (task : Task) (givenUp : Bool) : DeskM Unit :=
  tighten (dropButAnswers task givenUp) dropButAnswers_tight

/-- `fail`. -/
def failAs (project number : Nat) (reason cause : String) (givenUp : Bool) : LedgerM Task := do
  requireText reason "reason" 1000
  inWrite do
    let task ← taskRow project number
    requireTaskState task TaskState.failable "fail"
    let s ← state
    let told := s.unreceived task false
    dropFailed task givenUp
    moveTask task .failed { reason := some reason }
    releaseReady project
    tellFailed number task reason cause givenUp told
    taskById task.id

/-- `fail_task`. -/
def failTask (project number : Nat) (reason : String) : LedgerM Task :=
  failAs project number reason "" false

/-- `give_up_task`. -/
def giveUpTask (project number : Nat) (reason cause : String) : LedgerM Task :=
  failAs project number reason cause true

/-- `fail_for`: told words given up for good fail their task while it waits on its window. -/
def failFor (m : Message) (task : Task) : LedgerM Unit := do
  let assignee ← assigneeOf task
  let s ← state
  if !task.state.held || !s.isTold m assignee then pure ()
  else do
    moveTask task .failed { told := some m.id }
    releaseReady task.project

/-! ## 7. Off the board for good -/

def notFinished (task : Task) : LedgerError :=
  let next := if task.state = .done then "the chief accepts it or sends it back first"
    else "cancel it first"
  .refused "not-finished"
    s!"T-{task.number} is {task.state.word}: only a finished task leaves the board; {next}" 409

def taskNeeded (number : Nat) (needing : List Nat) : LedgerError :=
  match needing with
  | [only] => .refused "task-needed"
      s!"T-{only} still needs T-{number}, which failed and may be reopened: it stays on the board until T-{only} is finished"
      409
  | several => .refused "task-needed"
      s!"{taskNumbers several} still need T-{number}, which failed and may be reopened: it stays on the board until they are finished"
      409

/-- One finished task leaves the board. -/
def deleteTask (project number : Nat) : LedgerM Unit := do
  let task ← taskRow project number
  requireOnBoard task "delete"
  require task.state.finished (notFinished task)
  let s ← state
  let needing := if task.state = .failed then
      ((s.needing task.id).filter fun w => !w.state.finished).map (·.number)
    else []
  require needing.isEmpty (taskNeeded number needing)
  let t ← now
  updateTask task.id fun r => { r with deletedAt := some t }
  log project (.other "task.deleted" none)

/-- `delete_tasks`: all of them go, or none. -/
def deleteTasks (project : Nat) (numbers : List Nat) : LedgerM (List Task) := do
  let numbers := numbers.eraseDups
  inWrite do
    numbers.forM (deleteTask project)
    numbers.mapM (taskRow project)

end ConsensFlow
