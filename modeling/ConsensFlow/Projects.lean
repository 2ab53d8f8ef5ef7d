/-
  File:      ConsensFlow/Projects.lean
  Subject:   PROJECTS (`projects.rs`, `meeting.rs`, `wake_ups/due.rs`, `conversations/chief.rs`):
             opened with their human, chief and staff, closed and resumed, gated or not, and
             deleted with everything in them.

  * `createProject` -- a project with its participants, in one write;
  * **`setProjectState`** -- a Close, and the human's Resume, which sends on what the Close paused
    (`resumeWithProject`);
  * `setGate` -- the one program that may turn a gate;
  * `setMeeting`, `suspendForRestart`, `queueWakeUp`, `renameProject`, `switchChief`;
  * **`deleteProject`** -- a closed project goes for good, and what refers to it with it: the one
    program outside every frame.
-/
import ConsensFlow.Members

namespace ConsensFlow

open Lib Lib.Text Txn

/-! ## 1. Opened -/

/-- A new project's chief: the harness it runs on, and maybe a model and an effort. -/
structure NewChief where
  harness : String
  model : Option String := none
  effort : Option String := none
  deriving DecidableEq, Repr

/-- A project to open. Each member of its staff comes with the handle its model makes. -/
structure NewProject where
  directory : String
  name : String
  chief : NewChief
  staff : List (NewMember × String)
  gate : Bool
  deriving DecidableEq, Repr

/-- `NAME_MAX`. -/
def nameMax : Nat := 100

/-- `NewMember::check`: the roles of a member, each once and fitting its agent. -/
def NewMember.check {R : Ledger → Ledger → Prop} [Frame R] (m : NewMember) :
    LedgerTxn R (List Role) := do
  let roles ← requireRoles m.roles
  requireFittingRoles (m.modelName.getD (m.model.getD m.harness)) m.designer roles
  pure roles

/-- One member of a new project's staff joins it. -/
def addStaff (project : Nat) (m : NewMember × String) : LedgerM Unit := do
  let roles ← m.1.check
  let _ ← addParticipant project (m.1.joining roles m.2)
  pure ()

/-- `create_project`. -/
def createProject (request : NewProject) : LedgerM Project := do
  requireText request.directory "directory" 4096
  requireText request.name "name" nameMax
  request.staff.forM fun m => do
    let _ ← m.1.check
    pure ()
  inWrite do
    let t ← now
    let id ← insertProject
      { name := request.name, directory := request.directory, state := .opened, gate := request.gate
        createdAt := t, updatedAt := t }
    let _ ← addParticipant id { handle := "human", role := .human }
    let _ ← addParticipant id
      { handle := "chief", role := .chief, harness := some request.chief.harness
        model := request.chief.model, effort := request.chief.effort }
    request.staff.forM (addStaff id)
    log id (.other "project.created" none)
    projectRow id

/-- `rename_project`. -/
def renameProject (project : Nat) (name : String) : LedgerM Project := do
  requireText name "name" nameMax
  inWrite do
    let row ← projectRow project
    doWhen (row.name != name) (do
      let t ← now
      updateProject project fun p => { p with name, updatedAt := t }
      log project (.other "project.renamed" none))
    projectRow project

/-! ## 2. Wake-ups and meetings -/

/-- What a wake-up was sent as. -/
def What.wakeUp : What → Option Nat
  | .projectWakeUp m => some m
  | _ => none

/-- The note of a project's newest wake-up. -/
def Ledger.newestWakeUp (s : Ledger) (project : Nat) : Option Nat :=
  (s.events.rows.filterMap fun e =>
    if e.project == project then e.what.wakeUp else none).getLast?

/-- `withdraw_queued`: the wake-up that waits for its turn is never delivered. -/
def withdrawQueuedWakeUp (project : Nat) (reason : String) : DeskM Unit := do
  let s ← state
  match (s.newestWakeUp project).bind s.messages.get? with
  | none => pure ()
  | some m => doWhen (m.state == .queued) (do
      let _ ← cancelMessage m.id reason
      pure ())

/-- What `queue_if_due` writes once a wake-up is due: a note of the human's to the chief. -/
def queueWakeUp (project : Nat) (words : String) : DeskM Message := inWrite do
  let note ← send project { sender := some "human", whom := "chief", body := words }
  log project (.projectWakeUp note.id)
  pure note

/-- `end_meeting`. -/
def endMeeting (project : Nat) : LedgerM Unit := do
  let s ← state
  doWhen ((s.projects.get? project).any fun p => p.meetingAt.isSome) (do
    let t ← now
    updateProject project fun p => { p with meetingAt := none, updatedAt := t }
    log project (.other "project.meeting" none))

/-- `set_meeting`: had with an open project's chief. -/
def setMeeting (project : Nat) (on : Bool) : LedgerM Project := inWrite do
  let row ← projectRow project
  if on then do
    require (row.state == .opened)
      (.refused "project-closed" s!"{row.name} is closed: resume it first" 409)
    doWhen row.meetingAt.isNone (do
      let t ← now
      updateProject project fun p => { p with meetingAt := some t, updatedAt := t }
      log project (.other "project.meeting" none))
    projectRow project
  else do
    endMeeting project
    projectRow project

/-! ## 3. Closed and resumed -/

/-- What a project's opening or closing does besides. -/
def afterProjectState (project : Nat) (state : ProjectState) : LedgerM Unit :=
  match state with
  | .opened => do
    withdrawQueuedWakeUp project "the project was resumed"
    resumeWithProject project
  | .suspended => do
    withdrawQueuedWakeUp project "the project was closed"
    endMeeting project

/-- **`set_project_state`**. -/
def setProjectState (project : Nat) (state : ProjectState) : LedgerM Project := inWrite do
  let row ← projectRow project
  let t ← now
  updateProject project fun p => { p with state, updatedAt := t }
  doWhen (row.state != state) (do
    log project (.other "project.state" none)
    afterProjectState project state)
  projectRow project

/-- One project is suspended as the daemon starts. -/
def suspendOne (project : Nat) : LedgerM Unit := do
  let t ← now
  updateProject project fun p => { p with state := .suspended, updatedAt := t }
  log project (.other "project.state" none)
  withdrawQueuedWakeUp project "ConsensFlow stopped"

/-- `suspend_for_restart`: every open project is suspended, and every meeting over. -/
def suspendForRestart : LedgerM (List Project) := inWrite do
  let s ← state
  let opened := (s.projects.rows.filter fun p => p.state == .opened).map (·.id)
  opened.forM suspendOne
  let s ← state
  ((s.projects.rows.filter fun p => p.meetingAt.isSome).map (·.id)).forM endMeeting
  let s ← state
  pure (opened.filterMap s.projects.get?)

/-! ## 4. The gate -/

/-- A program that may turn the gate of a project. -/
abbrev GateM (project : Nat) := LedgerTxn (Kept { regates := (· = project) })

instance Kept.regated (project : Nat) : Frame (Kept { regates := (· = project) }) := inferInstance

instance (project : Nat) : MonadLift LedgerM (GateM project) :=
  ⟨fun m => Txn.lift (fun _ _ h => h.excused _) m⟩

theorem kept_gated (s : Ledger) (project : Nat) (gate : Bool) (t : Time) :
    Kept { regates := (· = project) } s
      { s with projects := s.projects.alterAt project fun p =>
          { p with gate, updatedAt := t } } := by
  refine Kept.of_eq rfl rfl (fun _ h => h) fun p hp hg => ?_
  obtain ⟨q, hq, rfl, hoff⟩ := hg
  refine ⟨_, Table.mem_alter.mpr ⟨q, hq, rfl⟩, Table.key_altered _ _ q, ?_⟩
  have hne : ¬ (Keyed.key q == project) = true := fun k => hp (beq_iff_eq.mp k)
  unfold Table.altered
  rw [if_neg hne]
  exact hoff

/-- `set_gate`: whether the human approves each message between two agents. -/
def setGate (project : Nat) (gate : Bool) : GateM project Project := inWrite do
  let row ← projectRow project
  let t ← (now : LedgerM Time)
  write (fun s => { s with projects := s.projects.alterAt project fun p =>
      { p with gate, updatedAt := t } })
    fun s => kept_gated s project gate t
  (doWhen (row.gate != gate) (log project (.other "project.gate" none)) : LedgerM Unit)
  projectRow project

/-! ## 5. The chief's harness -/

/-- `switch_chief`: the chief runs on another harness and model, in a fresh conversation. -/
def switchChief (project : Nat) (switch : NewChief) : LedgerM Project := inWrite do
  let chief ← participantByHandle project "chief"
  updateParticipant chief.id fun p =>
    { p with harness := some switch.harness, model := switch.model, effort := switch.effort
             modelName := none, outUntil := none }
  let t ← now
  endCurrent chief.id t
  log project (.other "chief.switched" none)
  projectRow project

/-- `set_program_gone`. -/
def setProgramGone (conversation : Nat) (gone : Bool) : DeskM Unit :=
  inWrite (updateConversations (fun c => c.id == conversation) fun c =>
    { c with programGone := gone })

/-! ## 6. Deleted -/

/-- Whether a participant is of the project. -/
def Ledger.isOf (s : Ledger) (project participant : Nat) : Bool :=
  (s.participants.get? participant).any fun p => p.project == project

/-- Whether a task is of the project. -/
def Ledger.taskIsOf (s : Ledger) (project task : Nat) : Bool :=
  (s.tasks.get? task).any fun t => t.project == project

/-- The ledger without a project: what the schema's cascades leave. A message goes with its
    recipient, its sender and its task too; for the rest, a row names rows of its own project
    only. -/
def Ledger.without (s : Ledger) (project : Nat) : Ledger :=
  { s with
    projects := s.projects.keep fun p => p.id != project
    participants := s.participants.keep fun p => p.project != project
    tasks := s.tasks.keep fun t => t.project != project
    needs := s.needs.filter fun e => !s.taskIsOf project e.1 && !s.taskIsOf project e.2
    conversations := s.conversations.keep fun c => !s.isOf project c.participant
    messages := s.messages.keep fun m => m.project != project && !s.isOf project m.recipient &&
      !m.sender.any (s.isOf project) && !m.task.any (s.taskIsOf project)
    events := s.events.keep fun e => e.project != project }

/-- **`delete_project`**: an open one is refused. -/
def deleteProject (project : Nat) : RawM Project := inWrite do
  let row ← projectRow project
  require (row.state == .suspended)
    (.refused "project-open" s!"{row.name} is open: close it first" 409)
  write (fun s => s.without project) (fun _ => trivial)
  pure row

end ConsensFlow
