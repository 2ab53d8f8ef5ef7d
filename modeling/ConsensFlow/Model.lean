/-
  File:      ConsensFlow/Model.lean
  Subject:   THE LEDGER'S RECORDS: the words its columns hold, its rows, its event log, and the
             whole of it as one value (`cf-ledger`: `model.rs`, `views.rs`, `migrations/`).

  * `Project`, `Participant`, `Task`, `Conversation`, `Message` -- a row of each table, with the
    columns that some operation of the model reads or writes;
  * `What`, `Event` -- the event log, each kind of event with the data later operations read of
    it or a reader is shown;
  * `Ledger` -- the database: one `Table` for each table, the edges of the plan (`task_need`),
    and the readings of the clock the call in progress is still to take;
  * `LedgerError` -- a refusal with its code, text and status, or what SQLite said.
-/
import ConsensFlow.Lib.Txn
import ConsensFlow.Lib.Table

namespace ConsensFlow

open Lib

/-! ## 1. The words the columns hold -/

/-- A reading of the ledger's clock, in milliseconds. The ledger writes one as ISO 8601 text in
    UTC, whose order is the order of the readings. -/
abbrev Time := Int

inductive ProjectState where
  | opened | suspended
  deriving DecidableEq, Repr

inductive Role where
  | human | chief | worker | advisor | reviewer | tester | designer
  deriving DecidableEq, Repr

inductive Tier where
  | critical | complex | standard | light
  deriving DecidableEq, Repr

inductive TaskState where
  | opened | queued | working | waiting | paused | done | accepted | failed | cancelled
  deriving DecidableEq, Repr

inductive Kind where
  | task | result | question | answer | note
  deriving DecidableEq, Repr

inductive MessageState where
  | queued | delivering | delivered | read | gated | failed | cancelled
  deriving DecidableEq, Repr

namespace Role

def word : Role → String
  | human => "human"
  | chief => "chief"
  | worker => "worker"
  | advisor => "advisor"
  | reviewer => "reviewer"
  | tester => "tester"
  | designer => "designer"

/-- `MEMBER_ROLES`, and `POOLS`: who may take a task on the board. -/
def memberRoles : List Role := [worker, advisor, reviewer, tester, designer]

/-- `COORDINATOR_ROLES`: who hands out work. -/
def coordinatorRoles : List Role := [human, chief]

end Role

namespace Tier

def word : Tier → String
  | critical => "critical"
  | complex => "complex"
  | standard => "standard"
  | light => "light"

end Tier

/-- `PURPOSES`: what critical work is for. -/
def purposes : List String :=
  ["critical-review", "architecture", "hard-problem", "important-question"]

namespace TaskState

def word : TaskState → String
  | opened => "open"
  | queued => "queued"
  | working => "working"
  | waiting => "waiting"
  | paused => "paused"
  | done => "done"
  | accepted => "accepted"
  | failed => "failed"
  | cancelled => "cancelled"

/-- `ACTIVE_TASK_STATES`. -/
def active : TaskState → Bool
  | working | waiting => true
  | _ => false

/-- `HELD_TASK_STATES`: on a member's hands, from assignment until its result. -/
def held : TaskState → Bool
  | queued | working | waiting => true
  | _ => false

/-- `FINISHED_TASK_STATES`: over, accepted or not. -/
def finished : TaskState → Bool
  | accepted | cancelled | failed => true
  | _ => false

/-- The states a task may be in with no assignee (`task_assignee_check`). -/
def unassignable : TaskState → Bool
  | opened | paused | cancelled | failed => true
  | _ => false

end TaskState

namespace Kind

def word : Kind → String
  | task => "task"
  | result => "result"
  | question => "question"
  | answer => "answer"
  | note => "note"

end Kind

namespace MessageState

def word : MessageState → String
  | queued => "queued"
  | delivering => "delivering"
  | delivered => "delivered"
  | read => "read"
  | gated => "gated"
  | failed => "failed"
  | cancelled => "cancelled"

end MessageState

/-! ## 2. Rows -/

/-- A row of `project`: what its calls and settings read of it. -/
structure Project where
  id : Nat := 0
  name : String
  directory : String
  state : ProjectState
  gate : Bool
  createdAt : Time
  updatedAt : Time
  meetingAt : Option Time := none
  deriving DecidableEq, Repr

/-- A row of `participant`: the human, the chief, a member, or a member's session. -/
structure Participant where
  id : Nat := 0
  project : Nat
  handle : String
  role : Role
  roles : List Role := []
  harness : Option String := none
  model : Option String := none
  effort : Option String := none
  modelName : Option String := none
  designer : Bool := false
  tier : Option Tier := none
  memberId : Option Nat := none
  outUntil : Option String := none
  outSince : Option Time := none
  createdAt : Time
  leftAt : Option Time := none
  deriving DecidableEq, Repr

/-- A row of `task`. -/
structure Task where
  id : Nat := 0
  project : Nat
  number : Nat
  title : String
  body : String
  requester : Nat
  assignee : Option Nat
  state : TaskState
  pool : Option Role
  tier : Option Tier
  purpose : Option String
  takenFrom : Option Nat := none
  heldUntil : Option String := none
  deletedAt : Option Time := none
  pausedAt : Option Time := none
  stopSeq : Nat := 0
  pausedWithProject : Bool := false
  createdAt : Time
  updatedAt : Time
  deriving DecidableEq, Repr

/-- A row of `conversation`: a window's program and the session it runs. -/
structure Conversation where
  id : Nat := 0
  participant : Nat
  harness : String
  nativeSession : Option String := none
  startedAt : Time
  endedAt : Option Time := none
  roleText : Option String := none
  programGone : Bool := false
  deriving DecidableEq, Repr

/-- How `cf` served a message whole: by `cf inbox read`, or in the thread `cf task get` printed. -/
inductive Read where
  | inbox | task
  deriving DecidableEq, Repr

/-- A message's receipt: the proof that it arrived, as JSON text, and beside it the read its
    recipient made while its paste was on its way, with the conversation it was made in, and that
    the message had been withdrawn, or given up, before the paste that held it arrived. -/
structure Receipt where
  proof : String
  readEarly : Option Read := none
  readIn : Option Nat := none
  cancelled : Option String := none
  failed : Option String := none
  deriving DecidableEq, Repr

/-- An option of a question: its label, and maybe what it means. -/
structure QuestionOption where
  label : String
  description : Option String := none
  deriving DecidableEq, Repr

/-- A question as a harness's question tool asks it: its words, a short header, the options to
    choose among, and whether several may be picked. -/
structure Question where
  question : String
  header : String
  options : List QuestionOption
  multiple : Bool
  deriving DecidableEq, Repr

/-- A row of `message`. `sender` is none for ConsensFlow itself. -/
structure Message where
  id : Nat := 0
  project : Nat
  recipient : Nat
  sender : Option Nat
  kind : Kind
  task : Option Nat
  replyTo : Option Nat := none
  body : String
  questions : Option (List Question) := none
  choices : Option (List (List String)) := none
  state : MessageState
  attempts : Nat := 0
  reason : Option String := none
  receipt : Option Receipt := none
  createdAt : Time
  deliveredAt : Option Time := none
  urgent : Bool := false
  carriedBy : Option Nat := none
  claimedAt : Option Time := none
  doorClosedAt : Option Time := none
  roleText : Option String := none
  handedAt : Option Time := none
  pastedInto : Option Nat := none
  deriving DecidableEq, Repr

/-! ## 3. The event log -/

/-- Why a task moved, as the log's `task.state` says it after the move. -/
structure Detail where
  by_ : Option String := none
  reason : Option String := none
  message : Option Nat := none
  told : Option Nat := none
  context : Bool := false
  stop : Option Nat := none
  deriving DecidableEq, Repr

/-- A failed task in a note of failures: when it failed, the words of its failure and of what
    was told to its window that waits for its reopen, and the close notes the note holds. -/
structure Member where
  task : Nat
  at_ : Time
  reason : String
  told : String
  closed : List String
  deriving DecidableEq, Repr

/-- What a note of failures is made of: the message that tells it, whom it tells, the cause the
    failures share (empty where there is none to tell by), and the failures. -/
structure Told where
  message : Nat
  whom : String
  key : String
  members : List Member
  deriving DecidableEq, Repr

/-- What an event says: its kind with its data. A kind that nothing reads back is `other`,
    under its name and with the message it is about. -/
inductive What where
  | taskState (task : Nat) (was now : TaskState) (detail : Detail)
  | taskReleased (task : Nat) (was now : TaskState) (detail : Detail)
  | taskAssigned (task : Nat) (whom : String)
  | taskStranded (task : Nat)
  | taskPauseTaken (task : Nat) (by_ : String)
  | taskRelaunched (task message : Nat)
  | deliveryBegun (message : Nat)
  | failureTold (told : Told)
  | projectWakeUp (message : Nat)
  | messageUncarried (carrier : Nat) (released : List Nat)
  | messageReconciled (uncarried : List Nat)
  | other (kind : String) (about : Option Nat)
  deriving DecidableEq, Repr

/-- A row of `event`. -/
structure Event where
  id : Nat := 0
  project : Nat
  at_ : Time
  what : What
  deriving DecidableEq, Repr

/-! ## 4. The whole ledger -/

instance : Keyed Project := ⟨(·.id), fun n r => { r with id := n }, fun _ _ => rfl, fun _ => rfl⟩
instance : Keyed Participant :=
  ⟨(·.id), fun n r => { r with id := n }, fun _ _ => rfl, fun _ => rfl⟩
instance : Keyed Task := ⟨(·.id), fun n r => { r with id := n }, fun _ _ => rfl, fun _ => rfl⟩
instance : Keyed Conversation :=
  ⟨(·.id), fun n r => { r with id := n }, fun _ _ => rfl, fun _ => rfl⟩
instance : Keyed Message := ⟨(·.id), fun n r => { r with id := n }, fun _ _ => rfl, fun _ => rfl⟩
instance : Keyed Event := ⟨(·.id), fun n r => { r with id := n }, fun _ _ => rfl, fun _ => rfl⟩

/-- The database as one transaction sees it. `needs` holds the edges of the plan, a task with a
    task it needs; `readings` what the clock is to show the call in progress. -/
structure Ledger where
  projects : Table Project
  participants : Table Participant
  tasks : Table Task
  needs : List (Nat × Nat)
  conversations : Table Conversation
  messages : Table Message
  events : Table Event
  readings : List Time

/-- A ledger just made. -/
def Ledger.empty : Ledger where
  projects := Table.empty
  participants := Table.empty
  tasks := Table.empty
  needs := []
  conversations := Table.empty
  messages := Table.empty
  events := Table.empty
  readings := []

/-- Why the ledger did not do what it was asked. -/
inductive LedgerError where
  | refused (code text : String) (status : Nat)
  | sqlite (what : String)
  deriving DecidableEq, Repr

/-- A refusal with status 400, what a request got wrong. -/
def LedgerError.wrong (code text : String) : LedgerError := .refused code text 400

end ConsensFlow
