/-
  File:      ConsensFlow/Members.lean
  Subject:   WHO IS ON A PROJECT'S STAFF (`staff.rs`, `conversations.rs`): members join, change
             roles, are edited and leave; a window's conversations.

  * `addParticipant`, `addMember` -- one joins, or comes back as itself;
  * `setRoles`, `editMember` -- in place, its windows with it;
  * **`removeMember`** -- its tasks are cancelled, whatever waits for them, and the chief is told
    of each waiter;
  * `startConversation`, `followConversation`, … -- what a window runs.
-/
import ConsensFlow.Delivering

namespace ConsensFlow

open Lib Lib.Text Txn

/-! ## 1. Joining -/

/-- A member a project is given. Its harness, model and effort are names the caller checked. -/
structure NewMember where
  harness : String
  model : Option String := none
  effort : Option String := none
  modelName : Option String := none
  designer : Bool := false
  roles : List Role
  tier : Tier
  deriving DecidableEq, Repr

def rolesRefused (offender : String) : LedgerError :=
  .wrong "invalid-role"
    s!"a member is one or more of {commas (Role.memberRoles.map Role.word)}, not {offender}"

/-- `require_roles`: one or more of the staff's roles, each once. -/
def requireRoles {R : Ledger → Ledger → Prop} [Frame R] (roles : List Role) :
    LedgerTxn R (List Role) := do
  let given := ",".intercalate (roles.map fun r => quoted r.word)
  require (!roles.isEmpty && roles.all Role.memberRoles.contains) (rolesRefused s!"[{given}]")
  pure roles.eraseDups

/-- `require_fitting_roles`: an image agent is an image designer, and no other agent is. -/
def requireFittingRoles {R : Ledger → Ledger → Prop} [Frame R] (agent : String) (designer : Bool)
    (roles : List Role) : LedgerTxn R Unit :=
  require (roles.all fun r => (r == .designer) == designer)
    (.wrong "invalid-role" (if designer then
      s!"{agent} is an image agent, which can only be an image designer"
      else s!"only an image agent can be an image designer, and {agent} is not one"))

/-- A participant joining a project. -/
structure NewParticipant where
  handle : String
  role : Role
  roles : List Role := []
  harness : Option String := none
  model : Option String := none
  effort : Option String := none
  modelName : Option String := none
  designer : Bool := false
  tier : Option Tier := none

/-- `add_participant`: under a handle nobody in the project has. -/
def addParticipant (project : Nat) (p : NewParticipant) : LedgerM Participant := do
  let _ ← projectRow project
  let s ← state
  require (s.handleFree project p.handle)
    (.refused "member-exists" s!"{p.handle} is already in project {project}" 409)
  let t ← now
  let id ← insertParticipant
    { project, handle := p.handle, role := p.role, roles := p.roles, harness := p.harness
      model := p.model, effort := p.effort, modelName := p.modelName, designer := p.designer
      tier := p.tier, createdAt := t }
  doWhen (p.role != .human && p.role != .chief) (log project (.other "member.added" none))
  participantRow id

/-- A member as a participant, under the handle made of its model. -/
def NewMember.joining (m : NewMember) (roles : List Role) (handle : String) : NewParticipant where
  handle
  role := roles.headD .worker
  roles
  harness := some m.harness
  model := m.model
  effort := m.effort
  modelName := m.modelName
  designer := m.designer
  tier := some m.tier

/-- One that left the staff and ran on the same, the newest. -/
def Ledger.departed (s : Ledger) (project : Nat) (m : NewMember) : Option Participant :=
  (s.participants.rows.filter fun p => p.project == project && p.leftAt.isSome &&
    p.memberId.isNone && p.role != .human && p.role != .chief && p.harness == some m.harness &&
    p.model == m.model && p.effort == m.effort && p.designer == m.designer).getLast?

/-- `add_member`: one that left comes back as itself, in the roles and the tier given now. -/
def addMember (project : Nat) (m : NewMember) (handle : String) : LedgerM Participant := do
  let roles ← requireRoles m.roles
  requireFittingRoles (m.modelName.getD (m.model.getD m.harness)) m.designer roles
  inWrite do
    let s ← state
    match s.departed project m with
    | none => addParticipant project (m.joining roles handle)
    | some left => do
      updateParticipants (fun p => p.id == left.id && p.role != .human)
        (fun p => { p with
          role := roles.headD .worker, roles, harness := some m.harness, model := m.model
          effort := m.effort, modelName := m.modelName, designer := m.designer
          tier := some m.tier, leftAt := none })
        (by
          intro q hq hr
          simp [hr] at hq)
      log project (.other "member.added" none)
      participantRow left.id

/-! ## 2. Changed in place -/

/-- `require_staff_role`. -/
def requireStaffRole {R : Ledger → Ledger → Prop} [Frame R] (handle : String) (p : Participant) :
    LedgerTxn R Unit :=
  require p.isMembers
    (.refused "not-a-member"
      s!"{handle} is the project's {p.role.word}, not a member of its staff" 409)

/-- A member of the staff by its handle, for what it `does`. -/
def staffMember {R : Ledger → Ledger → Prop} [Frame R] (project : Nat) (handle does : String) :
    LedgerTxn R Participant := do
  let member ← participantByHandle project handle
  let _ ← requireMemberRow member.id does
  requireStaffRole handle member
  pure member

/-- `set_roles`: a role it gains must fit its agent. -/
def setRoles (project : Nat) (handle : String) (roles : List Role) : LedgerM Participant := do
  let roles ← requireRoles roles
  inWrite do
    let member ← staffMember project handle "changes roles"
    requireFittingRoles handle member.designer (roles.filter fun r => !member.roles.contains r)
    updateParticipants (fun p => p.id == member.id && p.role != .human)
      (fun p => { p with role := roles.headD .worker, roles })
      (by
        intro q hq hr
        simp [hr] at hq)
    log project (.other "member.roles" none)
    participantRow member.id

/-- What Edit member changes of a member. -/
structure MemberEdit where
  harness : String
  model : Option String := none
  effort : Option String := none
  modelName : Option String := none
  tier : Tier
  deriving DecidableEq, Repr

/-- A window's handle once its member is called `new`: its own words after it, and a number where
    that is taken. -/
def Ledger.windowHandle (s : Ledger) (project : Nat) (old new was : String) : String :=
  let own := match (stripPrefix old.toList was.toList).bind (stripPrefix ['-']) with
    | some rest => String.ofList rest
    | none => was
  let base := s!"{new}-{own}"
  let numbered := (List.range (s.participants.rows.length + 1)).map fun i => s!"{base}-{i + 2}"
  ((base :: numbered).find? (s.handleFree project)).getD base

/-- `rename_member`: the member and its windows under another name. -/
def renameMember (project : Nat) (member : Participant) (new : String) : LedgerM Unit := do
  updateParticipant member.id fun p => { p with handle := new }
  let s ← state
  let windows := s.participants.rows.filter fun p => p.memberId == some member.id
  windows.forM fun w => do
    let s ← state
    updateParticipant w.id fun p =>
      { p with handle := s.windowHandle project member.handle new w.handle }

/-- `edit_member`: the member and its sessions run on another harness, model, effort or tier.
    `renamed` is the handle its new model makes. -/
def editMember (project : Nat) (handle : String) (edit : MemberEdit) (renamed : String) :
    LedgerM Participant := inWrite do
  let member ← staffMember project handle "is edited"
  updateParticipants (fun p => p.id == member.id || p.memberId == some member.id) fun p =>
    { p with harness := some edit.harness, model := edit.model, effort := edit.effort
             modelName := edit.modelName, tier := some edit.tier }
  log project (.other "member.edited" none)
  doWhen (edit.model.isSome && renamed != member.handle) (do
    renameMember project member renamed
    log project (.other "member.renamed" none))
  participantRow member.id

/-! ## 3. Leaving -/

/-- A member's own lane, and its sessions on the board. -/
def Ledger.windowsOf (s : Ledger) (member : Participant) : List Participant :=
  member :: s.participants.rows.filter fun p => p.memberId == some member.id && p.leftAt.isNone

/-- The tasks that leave with a member: those at its windows, and those that wait on the board for
    one of them. -/
def Ledger.leavingTasks (s : Ledger) (windows : List Participant) : List Task :=
  (s.tasks.rows.filter fun t => (t.assignee.any fun a => windows.any fun w => w.id == a) &&
    (t.state == .opened || t.state.held)).insertionSort fun a b => a.number ≤ b.number

/-- One of them is cancelled. -/
def cancelLeaving (reason : String) (task : Task) : LedgerM Unit := do
  dropQueued task.id
  moveTask task .cancelled { reason := some reason }

/-- What is still on its way to a window that leaves, or asked by it, is withdrawn, but the words
    kept for its paused tasks. -/
def sweepWindow (reason : String) (window : Participant) : DeskM Unit := do
  let kept ← keptThroughLeaving window.id reason
  setMessages (fun m =>
      ((m.recipient == window.id &&
          (m.state == .queued || m.state == .delivering || m.state == .gated)) ||
        (m.sender == some window.id && m.kind == .question &&
          (m.state == .queued || m.state == .gated))) && !kept.contains m.id)
    fun m => m.to .cancelled

/-- `tell_if_running`: a note for a participant whose window has started. -/
def tellIfRunning (project : Nat) (handle body : String) : DeskM Unit := do
  let s ← state
  match s.participants.rows.find? fun p =>
      p.project == project && p.handle == handle && p.leftAt.isNone with
  | none => pure ()
  | some p =>
    doWhen (s.currentConversation p.id).isSome (do
      let _ ← sendNote project handle none body
      pure ())

/-- What is told of a member's leaving: to whoever asked for the tasks that went, and to whoever
    told words that went with them. -/
def tellOfLeaving (project : Nat) (handle reason : String) (windows : List Participant)
    (tasks : List (Task × List Message)) : DeskM Unit := do
  let s ← state
  let requesters := ((tasks.map fun t => s.handleOf t.1.requester).eraseDups).filter (· != "human")
  doWhen (!tasks.isEmpty) (requesters.forM fun requester =>
    tellIfRunning project requester
      s!"@{handle} left the staff; it takes no more tasks. Cancelled with it: {taskNumbers (tasks.map (·.1.number))}.")
  tasks.forM fun (task, dropped) =>
    tellTheOthers task dropped s!"T-{task.number} was cancelled: {reason}."
      (windows.map (·.handle))

/-- The windows of a member leave, its sessions first. -/
def closeWindows (member : Participant) (sessions : List Participant) : LedgerM Unit := do
  sessions.forM fun session => closeSession session false
  let t ← now
  updateParticipant member.id fun p => { p with leftAt := some t }

/-- **`remove_member`**: the tasks it cancelled. -/
def removeMember (project : Nat) (handle : String) : LedgerM (Participant × List Nat) := inWrite do
  let member ← staffMember project handle "leaves the staff"
  let s ← state
  let windows := s.windowsOf member
  let tasks := s.leavingTasks windows
  let reason := s!"@{handle} left the staff"
  let dropped := tasks.map fun t => (t, s.unreceived t true)
  tasks.forM (cancelLeaving reason)
  windows.forM fun w => sweepWindow reason w
  closeWindows member windows.tail
  log project (.other "member.left" none)
  tellOfLeaving project handle reason windows dropped
  tasks.forM (tellStrandedWaiters project)
  let row ← participantRow member.id
  pure (row, tasks.map (·.number))

/-! ## 4. Conversations -/

def unknownConversation (id : Nat) : LedgerError :=
  .refused "unknown-conversation" s!"no conversation {id}" 404

/-- The conversation a participant has ends. -/
def endCurrent (participant : Nat) (t : Time) : DeskM Unit :=
  updateConversations (fun c => c.participant == participant && c.endedAt.isNone)
    fun c => { c with endedAt := some t }

/-- `start_conversation`. -/
def startConversation (participant : Nat) (harness : String) : DeskM Conversation := inWrite do
  let p ← participantRow participant
  let t ← now
  endCurrent participant t
  let id ← insertConversation { participant, harness, startedAt := t }
  log p.project (.other "conversation.started" none)
  let s ← state
  found (s.conversations.get? id) (unknownConversation id)

/-- `bind_conversation`. -/
def bindConversation (id : Nat) (native : String) : DeskM Conversation := do
  requireText native "native session" 512
  inWrite do
    let s ← state
    let c ← found (s.conversations.get? id) (unknownConversation id)
    let taken := s.conversations.rows.find? fun o =>
      o.harness == c.harness && o.nativeSession == some native && o.id != id
    require taken.isNone
      (.refused "native-session-taken"
        s!"native session {native} already belongs to conversation {(taken.map (·.id)).getD 0}" 409)
    updateConversations (fun o => o.id == id) fun o => { o with nativeSession := some native }
    let p ← participantRow c.participant
    log p.project (.other "conversation.bound" none)
    let s ← state
    found (s.conversations.get? id) (unknownConversation id)

/-- `end_conversation`. -/
def endConversation (id : Nat) : DeskM Unit := inWrite do
  let s ← state
  match (s.conversations.get? id).filter fun c => c.endedAt.isNone with
  | none => pure ()
  | some c => do
    let t ← now
    updateConversations (fun o => o.id == id) fun o => { o with endedAt := some t }
    let p ← participantRow c.participant
    log p.project (.other "conversation.ended" none)

/-- `follow_conversation`: a window the human switched to another conversation. -/
def followConversation (participant : Nat) (harness native : String) : DeskM Unit := do
  requireText native "native session" 512
  inWrite do
    let p ← participantRow participant
    let s ← state
    let held := s.conversations.rows.find? fun c =>
      c.harness == harness && c.nativeSession == some native
    let own := held.filter fun c => c.participant == participant
    if own.any fun c => c.endedAt.isNone then pure ()
    else do
      let t ← now
      endCurrent participant t
      match own with
      | some c =>
        updateConversations (fun o => o.id == c.id) fun o =>
          { o with endedAt := none, programGone := false }
      | none => do
        let _ ← insertConversation
          { participant, harness, startedAt := t
            nativeSession := if held.isNone then some native else none }
        pure ()
      log p.project (.other "conversation.followed" none)

end ConsensFlow
