/-
  File:      ConsensFlow/Releasing.lean
  Subject:   WHAT WAITS ON THE BOARD GOES TO ITS WINDOW (`tasks.rs`, `tasks/finishing.rs`).

  * `deliveryBody`, `carrierBody` -- how a task reads when it is handed over, and how the words
    that send a window on do;
  * `requireTaskState` -- a task still on the board, in one of some states;
  * `tellStranded` -- a task that waits for a cancelled one is told to the chief, once;
  * **`releaseReady`** -- the tasks given to a participant whose every need is accepted go to their
    windows, oldest first, each unless its session has a task in hand or an undecided result.
-/
import ConsensFlow.Staff

namespace ConsensFlow

open Lib Lib.Text Txn

/-! ## 1. How a task reads -/

def commas (words : List String) : String := ", ".intercalate words

def criticalRule : String :=
  "It changes no file: return analysis, evidence and recommendations to the chief."

/-- `delivery_body`: critical work leads with its purpose. -/
def deliveryBody (task : Task) : String :=
  match task.purpose with
  | none => task.body
  | some purpose => s!"Critical work: {purpose}. {criticalRule}\n\n{task.body}"

/-- `carrier_body`: the words that send a window on, with the brief before them where no task
    message for the window was received or is on its way. -/
def Ledger.carrierBody (s : Ledger) (task : Task) (window : Nat) (words : String) : String :=
  let held := s.messages.rows.any fun m => m.task == some task.id && m.recipient == window &&
    m.kind == .task && (m.state == .delivered || m.state == .read || m.state == .queued ||
      m.state == .gated || m.state == .delivering)
  if held then words else s!"{deliveryBody task}\n\n{words}"

/-- "standard worker", "image designer": who an open task waits for. -/
def poolName (pool : Option Role) (tier : Option Tier) : String :=
  if pool = some .designer then "image designer"
  else
    let tier := (tier.map Tier.word).getD "null"
    let pool := (pool.map Role.word).getD "null"
    s!"{tier} {pool}"

def aPool (pool : Option Role) (tier : Option Tier) : String :=
  let article := if pool = some .designer then "an" else "a"
  s!"{article} {poolName pool tier}"

section Lookups

variable {R : Ledger → Ledger → Prop} [Frame R]

/-- A task the human deleted from the board moves no more, and nothing new waits for it. -/
def requireOnBoard (task : Task) (action : String) : LedgerTxn R Unit :=
  require task.deletedAt.isNone
    (.refused "task-deleted" s!"cannot {action} T-{task.number}: it was deleted from the board" 409)

/-- A task still on the board, in one of `states`, for `action`. -/
def requireTaskState (task : Task) (states : TaskState → Bool) (action : String) :
    LedgerTxn R Unit := do
  requireOnBoard task action
  require (states task.state)
    (.refused "invalid-transition" s!"cannot {action} T-{task.number}: it is {task.state.word}" 409)

/-- `is_own_step`: the chief asked for the task and has it. -/
def isOwnStep (task : Task) : LedgerTxn R Bool :=
  if task.assignee != some task.requester then pure false
  else do
    let p ← participantRow task.requester
    pure (p.role == .chief)

end Lookups

/-! ## 2. Stranded -/

def Ledger.toldStranded (s : Ledger) (project number : Nat) : Bool :=
  s.events.rows.any fun e => e.project == project && e.what == .taskStranded number

/-- The chief of a project, on the board. -/
def Ledger.chiefOf (s : Ledger) (project : Nat) : Option Participant :=
  (s.participants.rows.filter fun p =>
    p.project == project && p.role == .chief && p.leftAt.isNone).getLast?

/-- The cancelled tasks that task `number` needs, by number. -/
def Ledger.cancelledNeeds (s : Ledger) (project number : Nat) : List Nat :=
  let of_ := s.tasks.rows.filter fun t => t.project == project && t.number == number
  (of_.flatMap fun t => (s.needed t.id).filter fun d => d.state == .cancelled).map (·.number)

/-- `tell_stranded`: the chief is told, once, that the task waits for a cancelled one. -/
def tellStranded (project number : Nat) : LedgerM Unit := do
  let s ← state
  let cancelled := s.cancelledNeeds project number
  match s.chiefOf project with
  | none => pure ()
  | some chief =>
    if s.toldStranded project number || cancelled.isEmpty then pure ()
    else do
      let _ ← sendNote project chief.handle (some number)
        s!"T-{number} waits on cancelled {taskNumbers cancelled} and will never start."
      logStranded project number

/-- `tell_stranded_waiters`: of each task that waits for `task`, just cancelled. -/
def tellStrandedWaiters (project : Nat) (task : Task) : LedgerM Unit := do
  let s ← state
  (s.waiters task.id).forM (tellStranded project)

/-- `note_stranded_waits`: what a ledger says at its opening of the tasks left waiting for a
    cancelled one. -/
def noteStrandedWaits : LedgerM Unit := inWrite do
  let s ← state
  let stranded := (s.tasks.rows.filter fun t => (t.state == .opened || t.state == .paused) &&
    (s.needed t.id).any fun d => d.state == .cancelled).insertionSort fun a b =>
      a.project < b.project ∨ (a.project = b.project ∧ a.number ≤ b.number)
  stranded.forM fun t => tellStranded t.project t.number

/-! ## 3. Released -/

/-- Whether `window` is a member's: a session, or the member's own lane. -/
def Participant.membersWindow (window : Participant) : Bool :=
  window.memberId.isSome || window.isMembers

/-- `cancel_unreachable`: a task that cannot go to its window, which left, is cancelled. -/
def cancelUnreachable (project : Nat) (task : Task) (window : Participant) : LedgerM Unit := do
  let s ← state
  let memberLeft ← match window.memberId with
    | some member => (fun m => m.leftAt.isSome) <$> participantRow member
    | none => pure true
  let memberHandle := match window.memberId with
    | some member => s.handleOf member
    | none => window.handle
  let why := if memberLeft then s!"@{memberHandle} left the staff"
    else s!"the conversation of @{window.handle} was lost"
  let dropped := s.unreceived task false
  dropQueued task.id
  moveTask task .cancelled { reason := some why }
  let requester ← participantRow task.requester
  let lead := s!"T-{task.number} was cancelled: {why}, so no window can take it."
  let s ← state
  let _ ← sendNote project requester.handle (some task.number)
    s!"{lead}{saidTo s dropped requester.handle}"
  tellTheOthers task dropped lead [requester.handle]
  tellStrandedWaiters project task

/-- The tasks on the board that were given to a participant, whose every need is accepted. -/
def Ledger.ready (s : Ledger) (project : Nat) : List Task :=
  s.tasks.rows.filter fun t => t.project == project && t.state == .opened && t.assignee.isSome &&
    (s.needed t.id).all fun d => d.state == .accepted

/-- A window takes nothing new while a task of it is in hand, nor while one has its result in
    and waits for a decision. -/
def Ledger.takesNothing (s : Ledger) (window : Participant) : Bool :=
  window.memberId.isSome &&
    (s.hasTaskInHand window.id || !(s.undecidedResults window.id).isEmpty)

/-- One task released to the window given, unless that takes nothing now. -/
def releaseTo (project : Nat) (task : Task) (assignee : Participant) : LedgerM Unit := do
  let s ← state
  if s.takesNothing assignee then pure ()
  else do
    let id ← queueTask project
      { whom := assignee.id, sender := some task.requester, kind := .task, task := some task.id
        body := deliveryBody task }
    moveTask task .queued { message := some id }

/-- One task of those `releaseReady` found. A member's window that left comes back for it, or
    the task ends here. -/
def releaseOne (project : Nat) (task : Task) : LedgerM Unit := do
  let assignee ← participantOf task.assignee
  if assignee.membersWindow && assignee.leftAt.isSome then do
    let continues ← canContinue assignee
    if continues then do
      let assignee ← bringBack assignee
      releaseTo project task assignee
    else cancelUnreachable project task assignee
  else releaseTo project task assignee

/-- **`release_ready`**. -/
def releaseReady (project : Nat) : LedgerM Unit := do
  let s ← state
  (s.ready project).forM (releaseOne project)

end ConsensFlow
