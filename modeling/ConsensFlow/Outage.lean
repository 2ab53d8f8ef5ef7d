/-
  File:      ConsensFlow/Outage.lean
  Subject:   ONE NOTE FOR ONE CAUSE, AND NO NOTE OF A FAILURE THAT IS NO LONGER TRUE
             (`tasks/outage.rs`, and the words of `tasks/finishing.rs` it says).

  * `Ledger.waiters`, `waitingOf` -- the tasks that wait for a task, and whose they are;
  * `Ledger.pendingTold` -- the notes of failures still to be given, read back from the log;
  * `putTold`, `mend` -- such a note written again as the board is now, or withdrawn;
  * `tellFailure`, `tellClosed` -- a failure told in one note with what failed of the same cause;
  * `noLongerFailed`, `noLongerWaiting` -- called by the write that moves the task.
-/
import ConsensFlow.Continuations

namespace ConsensFlow

open Lib Lib.Text Txn

/-! ## 1. The tasks that wait for a task -/

/-- `SAME_ERROR_WITHIN_MS`: half an hour. -/
def sameErrorWithinMs : Int := 30 * 60000

/-- The tasks that need `task`, and those it needs, by number. -/
def Ledger.needing (s : Ledger) (task : Nat) : List Task :=
  (s.tasks.rows.filter fun t => s.needs.contains (t.id, task)).insertionSort
    fun a b => a.number ≤ b.number

def Ledger.needed (s : Ledger) (task : Nat) : List Task :=
  (s.tasks.rows.filter fun t => s.needs.contains (task, t.id)).insertionSort
    fun a b => a.number ≤ b.number

/-- The tasks that wait for `task`: those still open or paused with it among what they need. -/
def Ledger.waiters (s : Ledger) (task : Nat) : List Nat :=
  ((s.needing task).filter fun t => t.state == .opened || t.state == .paused).map (·.number)

def taskNumbers (numbers : List Nat) : String :=
  ", ".intercalate (numbers.map fun n => s!"T-{n}")

/-- "T-1, T-2 and T-3". -/
def names (numbers : List Nat) : String :=
  match numbers.reverse with
  | [] => ""
  | [only] => s!"T-{only}"
  | last :: rest => s!"{taskNumbers rest.reverse} and T-{last}"

def reopenOrAccept (number : Nat) : String :=
  s!" Reopen it with: cf task reopen T-{number} \"…\", or accept it with what you checked: cf task accept T-{number} \"…\""

def waitForIt (number : Nat) : List Nat → String
  | [] => ""
  | [only] => s!" T-{only} waits for it: cancel T-{only}, or reopen T-{number} and let it finish."
  | waiting =>
    s!" {taskNumbers waiting} wait for it: cancel them, or reopen T-{number} and let it finish."

/-- What the note to the requester of the task `waiting` says of the failed task it waits for. -/
def waitsForFailed (waiting number : Nat) : String :=
  s!"T-{waiting} waits for T-{number}, which failed: cancel T-{waiting}, reopen T-{number} and let it finish, or accept T-{number} with what you checked: cf task accept T-{number} \"…\""

/-- The tasks that wait for `task` and were asked for by `requester`. -/
def waitingOf (task : Task) (requester : String) : DeskM (List Nat) := do
  let s ← state
  let mine ← (s.waiters task.id).mapM fun n => do
    let w ← taskRow task.project n
    let r ← participantRow w.requester
    pure (n, r.handle == requester)
  pure ((mine.filter (·.2)).map (·.1))

def waitingForIt (task : Task) (requester : String) : DeskM String := do
  let waiting ← waitingOf task requester
  pure (waitForIt task.number waiting)

/-! ## 2. The notes of failures still to be given -/

/-- A message not given yet that may still not be: queued, or in its delivery but not handed. -/
def Message.pending (m : Message) : Bool :=
  m.state == .queued || (m.state == .delivering && m.handedAt.isNone)

/-- ConsensFlow's own note. -/
def Message.ownNote (m : Message) : Bool := m.kind == .note && m.sender.isNone

def What.failure : What → Option Told
  | .failureTold t => some t
  | _ => none

/-- When the oldest of ConsensFlow's notes still to be given was written. -/
def Ledger.oldestPending (s : Ledger) (project : Nat) : Option Time :=
  ((s.messages.rows.filter fun m => m.project == project && m.ownNote && m.pending).map
    (·.createdAt)).min?

/-- The notes of failures the project has still to give, oldest first. -/
def Ledger.pendingTold (s : Ledger) (project : Nat) : List Told :=
  match s.oldestPending project with
  | none => []
  | some oldest =>
    (s.events.rows.filterMap fun e =>
      if e.project == project && oldest ≤ e.at_ then e.what.failure else none).filter fun t =>
        (s.messages.get? t.message).any Message.pending

/-- The members whose task is failed still. -/
def failedStill (project : Nat) (members : List Member) : DeskM (List Member) := do
  let live ← members.mapM fun m => do
    let t ← taskRow project m.task
    pure (m, t.state == .failed)
  pure ((live.filter (·.2)).map (·.1))

/-- What waits for each of several failed tasks, as the note of them says it. -/
def waitingLines (project : Nat) (whom : String) (members : List Member) :
    DeskM (List String) := do
  let lines ← members.mapM fun m => do
    let t ← taskRow project m.task
    let waiting ← waitingOf t whom
    pure (match waiting with
      | [] => []
      | [only] => [s!"T-{only} waits for T-{m.task}"]
      | several => [s!"{names several} wait for T-{m.task}"])
  pure lines.flatten

/-- The span the failures came within, in whole minutes, at least one. -/
def withinWords (members : List Member) : String :=
  let first := ((members.map (·.at_)).min?).getD 0
  let last := ((members.map (·.at_)).max?).getD 0
  let minutes := max 1 (Int.tdiv (last - first + 59999) 60000)
  if minutes = 1 then "1 minute" else s!"{minutes} minutes"

/-- The note of `members`, all failed. -/
def renderTold (project : Nat) (whom : String) (members : List Member) : DeskM String :=
  match members with
  | [only] => do
    let t ← taskRow project only.task
    let waiting ← waitingForIt t whom
    let closed := "".intercalate (only.closed.map fun line => s!"\n{line}")
    pure s!"T-{only.task} failed: {only.reason}{only.told}.{reopenOrAccept only.task}{waiting}{closed}"
  | members => do
    let numbers := members.map (·.task)
    let head := s!"{names numbers} failed within {withinWords members} of each other with the same error, which looks like an outage of the network or the API, not their work:"
    let said := "".intercalate (members.map fun m => s!"\nT-{m.task}: {m.reason}{m.told}")
    let waiting ← waitingLines project whom members
    let waits := if waiting.isEmpty then "" else
      let listed := "; ".intercalate waiting
      s!"\nWaiting for them: {listed}. Cancel what waits, or reopen what it waits for."
    let closed := "".intercalate (members.flatMap fun m => m.closed.map fun line => s!"\n{line}")
    let reopen := "; ".intercalate (numbers.map fun n => s!"cf task reopen T-{n} \"…\"")
    pure s!"{head}{said}{waits}{closed}\nReopen them all with: {reopen}"

/-- The note that tells `members` to `whom`, written, with the notes in `replaces` withdrawn in
    favour of it; none where no member is failed any more. -/
def putTold (project : Nat) (whom key : String) (members : List Member) (replaces : List Nat)
    (why : String) : DeskM (Option Message) := do
  let live ← failedStill project members
  if live.isEmpty then
    withdrawEach project replaces why
    pure none
  else do
    let body ← renderTold project whom live
    let task := match live with
      | [only] => some only.task
      | _ => none
    let sent ← sendNote project whom task body
    log project (.failureTold { message := sent.id, whom, key, members := live })
    withdrawEach project replaces s!"superseded by m-{sent.id}"
    pure (some sent)

/-- A queued note of failures, written again as the board is now, or withdrawn where nothing in
    it is true. -/
def mend (project : Nat) (told : Told) (why : String) : DeskM Unit := do
  let live ← failedStill project told.members
  if live.isEmpty then withdrawEach project [told.message] why
  else do
    let body ← renderTold project told.whom live
    let s ← state
    let current := (s.messages.get? told.message).map (·.body)
    if live.length = told.members.length && current = some body then pure ()
    else do
      let _ ← putTold project told.whom told.key live [told.message] why
      pure ()

/-! ## 3. A task that moves -/

/-- The notes of ConsensFlow's about a task, still to be given, whose words meet `said`. -/
def Ledger.notesSaying (s : Ledger) (project task : Nat) (said : String → Bool) : List Nat :=
  (s.messages.rows.filter fun m =>
    m.project == project && m.task == some task && m.ownNote && m.pending && said m.body).map (·.id)

/-- Whether a text begins with `opening`. -/
def opens (opening body : String) : Bool := (stripPrefix opening.toList body.toList).isSome

def withdrawWaits (project waiting : Nat) (said why : String) : DeskM Unit := do
  let s ← state
  withdrawEach project (s.notesSaying project waiting (· == said)) why

/-- The failed task is no longer failed: what tells that it is, to whoever has not been given
    it, goes. -/
def noLongerFailed (task : Task) (to_ : TaskState) : DeskM Unit := do
  let why := s!"T-{task.number} is {to_.word} now"
  let s ← state
  (s.pendingTold task.project).forM fun note =>
    if note.members.any fun m => m.task == task.number then mend task.project note why
    else pure ()
  let s ← state
  withdrawEach task.project
    (s.notesSaying task.project task.id (opens s!"T-{task.number} failed: ")) why
  let s ← state
  (s.needing task.id).forM fun w =>
    withdrawWaits task.project w.id (waitsForFailed w.number task.number) why

/-- The task, which waited for tasks, waits no more. -/
def noLongerWaiting (task : Task) (to_ : TaskState) : DeskM Unit := do
  let s ← state
  let failed := (s.needed task.id).filter fun t => t.state == .failed
  if failed.isEmpty then pure ()
  else do
    let why := s!"T-{task.number} is {to_.word} now"
    failed.forM fun f => withdrawWaits task.project task.id (waitsForFailed task.number f.number) why
    let s ← state
    (s.pendingTold task.project).forM fun note =>
      if note.members.any fun m => failed.any fun f => f.number == m.task then
        mend task.project note why
      else pure ()

/-! ## 4. A failure told -/

def windowClosed (number : Nat) : String := s!"T-{number}'s window closed"

/-- The close notes of the windows of `members` that wait to be given to `whom`. -/
def queuedCloses (project : Nat) (whom : String) (members : List Member) :
    DeskM (List (Nat × Nat × String)) := do
  let recipient ← participantByHandle project whom
  let lines ← members.mapM fun m => do
    let t ← taskRow project m.task
    let s ← state
    pure ((s.messages.rows.filter fun x =>
      x.project == project && x.recipient == recipient.id && x.task == some t.id && x.ownNote &&
        x.pending && opens (windowClosed m.task) x.body).map fun x => (m.task, x.id, x.body))
  pure lines.flatten

/-- The members with a close note's line added to the one it is about, once. -/
def withClosed (number : Nat) (line : String) : List Member → List Member
  | [] => []
  | m :: ms =>
    if m.task == number then
      (if m.closed.contains line then m else { m with closed := m.closed ++ [line] }) :: ms
    else m :: withClosed number line ms

/-- The failed task is told to its requester: alone, or in one note with what failed of the same
    cause and is still to be given. -/
def tellFailure (task : Task) (whom reason told cause : String) : DeskM Unit := do
  let t ← now
  let s ← state
  let earlier := if cause.isEmpty then [] else
    (s.pendingTold task.project).filter fun note =>
      note.whom == whom && note.key == cause &&
        ((note.members.map (·.at_)).max?).any fun newest => decide (t - newest ≤ sameErrorWithinMs)
  let others := (earlier.flatMap (·.members)).filter fun m => m.task != task.number
  let failure : Member := { task := task.number, at_ := t, reason, told, closed := [] }
  let members := (others ++ [failure]).insertionSort fun a b => a.at_ ≤ b.at_
  let replaces := earlier.map (·.message)
  if members.length > 1 then do
    let closes ← queuedCloses task.project whom members
    let members := closes.foldl (fun ms (number, _, line) => withClosed number line ms) members
    let _ ← putTold task.project whom cause members (replaces ++ closes.map (·.2.1)) "superseded"
    pure ()
  else do
    let _ ← putTold task.project whom cause members replaces "superseded"
    pure ()

/-- A note: from a participant (ConsensFlow itself when none) to another. -/
structure NewNote where
  sender : Option String := none
  whom : String
  body : String
  task : Option Nat := none

def note (project : Nat) (n : NewNote) : DeskM Message :=
  send project { sender := n.sender, whom := n.whom, body := n.body, task := n.task }

/-- Goes through the notes of failures until one took the close note in. -/
def closeInto (project : Nat) (new : NewNote) (number : Nat) : List Told → DeskM (Option Message)
  | [] => pure none
  | told :: rest =>
    if told.whom != new.whom then closeInto project new number rest
    else do
      let members ← failedStill project told.members
      if members.length < 2 || !(members.any fun m => m.task == number) then
        closeInto project new number rest
      else do
        match ← putTold project told.whom told.key (withClosed number new.body members)
            [told.message] "superseded" with
        | some sent => pure (some sent)
        | none => closeInto project new number rest

/-- The note that its window closed: a line of the queued note of several failures that holds
    the task, and a note of its own anywhere else. -/
def tellClosed (project : Nat) (new : NewNote) : DeskM Message := inWrite do
  match new.task with
  | none => note project new
  | some number => do
    let s ← state
    match ← closeInto project new number (s.pendingTold project) with
    | some sent => pure sent
    | none => note project new

end ConsensFlow
