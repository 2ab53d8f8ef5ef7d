/-
  File:      ConsensFlow/Giving.lean
  Subject:   A TASK GIVEN, AND TAKEN BACK (`tasks/giving.rs`).

  * `createTask` -- to a participant by name, as a follow-up for the session that did another, or
    for a pool and tier; with what it needs and what comes to wait for it. A plan has no
    circles: `Ledger.upstream` walks the edges written so far;
  * `assignTask` -- the daemon's choice for an open task: a new session of a member;
  * `retierOpenTask` -- a tier nobody holds any more goes to the nearest one somebody does;
  * `releaseInside`, `releaseTask` -- a task given by tier goes back to the board.
-/
import ConsensFlow.Releasing
import ConsensFlow.Lib.Graph

namespace ConsensFlow

open Lib Lib.Text Txn

/-! ## 1. A new task -/

/-- A task asked for: by name, as a follow-up, or for a pool and tier. -/
structure NewTask where
  sender : String
  whom : Option String := none
  after : Option Nat := none
  pool : Option Role := none
  tier : Option Tier := none
  purpose : Option String := none
  body : String
  needs : List Nat := []
  before : List Nat := []
  deriving DecidableEq, Repr

def invalidPool (pool : String) : LedgerError :=
  .wrong "invalid-pool"
    s!"a pool is {commas (Role.memberRoles.map Role.word)}, not {pool}"

def tierRefused : LedgerError :=
  .wrong "invalid-tier" s!"a tier is {commas (Tier.all.map Tier.word)}, not undefined"

def purposeRequired : LedgerError :=
  .wrong "purpose-required" s!"critical work names its purpose: {commas purposes}"

/-- Whether a purpose is one of those critical work names. -/
def isPurpose (purpose : Option String) : Bool := purpose.any purposes.contains

/-- `check_work`: the tier a task given by neither name nor follow-up is for. -/
def NewTask.checkWork {R : Ledger → Ledger → Prop} [Frame R] (t : NewTask) :
    LedgerTxn R (Option Tier) :=
  if t.whom.isSome || t.after.isSome then pure t.tier
  else match t.pool with
    | none => refuse (invalidPool "undefined")
    | some pool =>
      if !Role.memberRoles.contains pool then refuse (invalidPool pool.word)
      else if pool = .designer then pure none
      else match t.tier with
        | none => refuse tierRefused
        | some tier =>
          if tier = .critical && !isPurpose t.purpose then refuse purposeRequired
          else pure (some tier)

/-- `distinct`: task numbers, positive and each once, in the order first given. -/
def distinct {R : Ledger → Ledger → Prop} [Frame R] (numbers : List Nat) (field : String) :
    LedgerTxn R (List Nat) := do
  require (numbers.all fun n => 0 < n && n < 2 ^ 63)
    (.wrong "invalid-needs" s!"{field} is a list of task numbers (T-3, T-4)")
  pure numbers.eraseDups

/-- `title_of`: the first line that says something, shortened to fit. -/
def titleOf (body : String) : String :=
  let lines := (splitAll ['\n'] body.toList).map fun l => jsTrim (String.ofList l)
  let line := (lines.find? fun l => !l.isEmpty).getD ""
  if utf16Len line ≤ 120 then line else s!"{utf16Prefix line 119}…"

/-- `brief_begun`: whether a task message of the task has begun to reach its window. -/
def Ledger.briefBegun (s : Ledger) (task : Nat) : Bool :=
  s.messages.rows.any fun m => m.task == some task && m.kind == .task &&
    (m.state == .delivering || m.state == .delivered || m.state == .read)

/-- `cannot_wait_for_a_new_one`: what is to be done instead of `--before` a task no longer on the
    board. -/
def cannotWaitForANewOne (waits : Task) : LedgerM LedgerError := do
  let own ← isOwnStep waits
  let s ← state
  let n := waits.number
  let alone := "a task in a window is not pulled back"
  let again := "cancel it and add it again with --needs on the new task"
  let instead :=
    if !(waits.state.held || waits.state == .paused) then
      "add that work again with --needs on the new task if it is still wanted"
    else if own then
      s!"{alone}. T-{n} is your own step, which is not paused: finish it later with cf task done T-{n} \"…\" once the new task is accepted, or cancel it and add it again with --self --needs on the new task"
    else if waits.state == .paused then
      s!"{alone}. Add the new task without --before, and send T-{n} on with cf task resume T-{n} \"…\" once the new task is accepted; or {again}"
    else if waits.state == .queued && waits.pool.isSome && !s.briefBegun waits.id then
      s!"{alone}. Add the new task without --before, then put T-{n} behind it with cf task edit T-{n} --needs +T-<the new task>; or {again}"
    else
      s!"{alone}. Add the new task without --before, pause T-{n} now (cf task pause T-{n}), and send it on with cf task resume T-{n} \"…\" once the new task is accepted; or {again}"
  pure (.refused "not-on-the-board"
    s!"T-{n} is {waits.state.word}: only a task still on the board can wait for a new one; {instead}"
    409)

/-- `upstream`: whether `task` needs `other`, directly or through the tasks it needs. -/
def Ledger.upstream (s : Ledger) (task other : Nat) : Bool :=
  (Graph.reach s.needs task).contains other

/-- What was created: the task, the message that briefs its window, and the tier asked where it
    went to another. -/
structure TaskCreated where
  task : Task
  message : Option Message := none
  asked : Option Tier := none

/-- The next number of a project's tasks. -/
def Ledger.nextNumber (s : Ledger) (project : Nat) : Nat :=
  ((s.tasks.rows.filter fun t => t.project == project).map (·.number)).foldl max 0 + 1

/-- Who a new task is for, and what it waits behind. -/
def takerOf (project : Nat) (request : NewTask) : LedgerM (Option Participant × List Nat) :=
  match request.after, request.whom with
  | some after, _ => do
    let f ← followUpSession project after
    pure (some f.session, f.behind)
  | none, some whom => do
    let named ← participantByHandle project whom
    requireFree named .task
    pure (some named, [])
  | none, none => pure (none, [])

def noMemberOfTier (pool : Role) : LedgerError :=
  let who := if pool = .designer then "image designer" else pool.word
  .refused "no-member-of-tier"
    s!"no {who} is on the staff: ask the human for one, in your terminal"
    409

def needCancelled (number : Nat) : LedgerError :=
  .refused "need-cancelled" s!"T-{number} is cancelled: nothing waits for it" 409

/-- The new task `task` needs T-`number`: one of the two tests each need is put to. -/
def needOne (project task number : Nat) : LedgerM Unit := do
  let need ← taskRow project number
  require (need.state != .cancelled) (needCancelled number)
  -- an accepted task the human cleared still releases a new one at once
  doWhen (need.state != .accepted) (requireOnBoard need "wait for")
  insertNeed task need.id

/-- T-`number`, on the board, waits for the new task `task`, T-`next`. -/
def waitOne (project task next number : Nat) : LedgerM Unit := do
  let waits ← taskRow project number
  if waits.state != .opened then do
    let e ← cannotWaitForANewOne waits
    refuse e
  else do
    let s ← state
    require (!s.upstream task waits.id)
      (.refused "circular-needs"
        s!"T-{number} is already what T-{next} waits for: a plan has no circles" 409)
    insertNeed waits.id task

/-- Whether one of the tasks numbered is not accepted yet, looked up until one is not. -/
def blockedBy (project : Nat) : List Nat → LedgerM Bool
  | [] => pure false
  | n :: ns => do
    let t ← taskRow project n
    if t.state != .accepted then pure true else blockedBy project ns

/-- Whether a task for a participant waits on the board for what it needs. -/
def waitsFor (project : Nat) (taker : Option Participant) (numbers : List Nat) : LedgerM Bool :=
  if taker.isSome then blockedBy project numbers else pure false

/-- `create_task`. -/
def createTask (project : Nat) (request : NewTask) : LedgerM TaskCreated := do
  requireText request.body "body" maxBody
  let asked0 ← distinct request.needs "needs"
  let blocking ← distinct request.before "before"
  let asked ← request.checkWork
  let named := request.whom.isSome || request.after.isSome
  inWrite do
    let requester ← participantByHandle project request.sender
    require (Role.coordinatorRoles.contains requester.role)
      (.refused "not-a-coordinator"
        s!"@{requester.handle} is a {requester.role.word}: members do not hand out tasks" 403)
    require (!(request.pool == some .advisor && !named && requester.role != .chief))
      (.refused "advice-for-the-chief" "only the chief asks an advisor" 403)
    let (assignee, behind) ← takerOf project request
    let needed := (asked0 ++ behind).eraseDups
    let s ← state
    -- a task for nobody by name has a pool: `checkWork` saw to it
    let pool := request.pool.getD .worker
    let tier := if assignee.isNone then s.nearestTier project pool asked else asked
    require (assignee.isSome || s.hasMembersOfTier project pool tier) (noMemberOfTier pool)
    let blocked ← waitsFor project assignee needed
    let s ← state
    let next := s.nextNumber project
    let t ← now
    let opened := assignee.isNone || blocked
    let task ← insertTask
      { project, number := next, title := titleOf request.body, body := request.body
        requester := requester.id, assignee := assignee.map (·.id)
        state := if opened then .opened else .queued
        pool := if assignee.isNone then some pool else none
        tier := if assignee.isNone then tier else none
        purpose := request.purpose, createdAt := t, updatedAt := t }
    needed.forM (needOne project task)
    blocking.forM (waitOne project task next)
    let moved := asked.filter fun a => tier != some a
    match assignee with
    | some taker =>
      if blocked then do
        log project (.other "task.opened" none)
        let row ← taskById task
        pure { task := row, asked := moved }
      else do
        let row ← taskById task
        let id ← queueTask project
          { whom := taker.id, sender := some requester.id, kind := .task, task := some task
            body := deliveryBody row }
        log project (.other "task.created" (some id))
        let row ← taskById task
        let m ← knownMessage id
        pure { task := row, message := some m, asked := moved }
    | none => do
      log project (.other "task.opened" none)
      let row ← taskById task
      pure { task := row, asked := moved }

/-! ## 2. Assigned -/

/-- `require_member_row`: a member of the staff, never one of its sessions. -/
def requireMemberRow {R : Ledger → Ledger → Prop} [Frame R] (participant : Nat) (does : String) :
    LedgerTxn R Participant := do
  let row ← participantRow participant
  let s ← state
  let member := (row.memberId.map s.handleOf).getD ""
  require row.memberId.isNone
    (.refused "not-a-member"
      s!"@{row.handle} is a session of @{member}: a member {does}" 409)
  pure row

/-- What a move of a task gives back. -/
structure TaskMoved where
  task : Task
  message : Option Message := none
  withdrawn : List Message := []
  landing : List Message := []

/-- `assign_task`: the daemon's choice for an open task, a new session of that member. -/
def assignTask (project number participant : Nat) (names : List String) :
    LedgerM TaskMoved := inWrite do
  let task ← taskRow project number
  requireTaskState task (· == .opened) "assign"
  let member ← requireMemberRow participant "takes a task"
  let pool ← found (task.pool.filter fun pool =>
      member.leftAt.isNone && member.project == project && member.roles.contains pool &&
        (task.tier.isNone || member.tier == task.tier))
    (.refused "not-a-candidate"
      s!"@{member.handle} is not {aPool task.pool task.tier} on this staff" 409)
  let session ← startSession project member pool names
  leavePauseNotes task s!"was taken by @{member.handle}" .movesOn
  let t ← now
  updateTask task.id fun r => { r with assignee := some session.id, updatedAt := t }
  let row ← taskById task.id
  let id ← queueTask project
    { whom := session.id, sender := some task.requester, kind := .task, task := some task.id
      body := deliveryBody row }
  moveTaskAs task .queued (.taskAssigned task.number session.handle)
  let row ← taskById task.id
  let m ← knownMessage id
  pure { task := row, message := some m }

/-- The log of a task whose tier changed. -/
def logRetiered (project : Nat) : DeskM Unit := log project (.other "task.retiered" none)

/-- `retier_open_task`: which tier the task was for, which it is for now, and who holds it. -/
def retierOpenTask (project number : Nat) : DeskM (Option (Tier × Tier × List String)) := inWrite do
  let task ← taskRow project number
  let s ← state
  match task.pool, task.tier with
  | some pool, some asked =>
    match s.nearestTier project pool (some asked) with
    | none => pure none
    | some tier =>
      if task.state != .opened || tier == asked || !s.hasMembersOfTier project pool (some tier) then
        pure none
      else do
        let t ← now
        setTasks (fun r => r.id == task.id) fun r => { r with tier := some tier, updatedAt := t }
        logRetiered project
        pure (some (asked, tier, s.holdersOfTier project pool tier))
  | _, _ => pure none

/-! ## 3. Taken back -/

/-- `require_releasable`: in a window, or waiting for one, given by its tier. -/
def requireReleasable {R : Ledger → Ledger → Prop} [Frame R] (task : Task) : LedgerTxn R Unit := do
  requireTaskState task (fun st => st.held || st == .paused) "release"
  require task.pool.isSome
    (.refused "invalid-transition"
      s!"cannot release T-{task.number}: it was given by name, not by tier" 409)

/-- The follow-ups bound to a window that lost the task they follow. -/
def Ledger.boundTo (s : Ledger) (task : Nat) (window : Participant) : List Nat :=
  ((s.needing task).filter fun t => (t.state == .opened || t.state == .paused) &&
    t.assignee == some window.id).map (·.number)

/-- What its requester is told of a task taken back. -/
def takenBackNote (task : Task) (because : String) (bound : List Nat) :
    Option (Participant × Transfer) → String
  | none => s!"T-{task.number} is back on the board ({because}) and waits for {aPool task.pool task.tier}."
  | some (member, carried) =>
    let n := task.number
    let withdrawn := if carried.gated.isEmpty then ""
      else s!" Withdrawn with it, still waiting for the human: {mList (carried.gated.map Int.ofNat)}."
    let note := s!"T-{n} was taken back from @{member.handle} ({because}) and waits for another {poolName task.pool task.tier}.{withdrawn}"
    match bound with
    | [] => note
    | [only] =>
      s!"{note} T-{only} stays bound to @{member.handle}, which no longer has T-{n}: cancel it, or add it again for a tier with --needs T-{n}."
    | several =>
      s!"{note} {taskNumbers several} stay bound to @{member.handle}, which no longer has T-{n}: cancel them, or add them again for a tier with --needs T-{n}."

/-- The brief a task taken back is given to its next window with. -/
def takenBackBody (task : Task) (because : String) (untouched : Bool) :
    Option (Participant × Transfer) → String
  | none => task.body
  | some (member, carried) =>
    if untouched then s!"{task.body}{carried.kept}"
    else s!"{task.body}{carried.kept}\n\nReassigned from @{member.handle} ({because}); check the working tree for partial changes."

/-- What is said and kept of the window a task is taken from, if one had it. -/
def takenFrom (task : Task) : DeskM (Option (Participant × Transfer)) :=
  match task.assignee with
  | none => pure none
  | some id => do
    let member ← participantRow id
    let carried ← transfer task member (deliveryBody task)
    pure (some (member, carried))

/-- `release_inside`: a task given by tier goes back to the board for another member of it. -/
def releaseInside (project number : Nat) (because : String) (untouched : Bool) :
    LedgerM Task := do
  requireText because "because" 1000
  inWrite do
    let task ← taskRow project number
    requireReleasable task
    leavePauseNotes task "was taken back" .movesOn
    let from_ ← takenFrom task
    let t ← now
    updateTask task.id fun r =>
      { r with assignee := none, state := .opened, body := takenBackBody task because untouched from_
               updatedAt := t
               takenFrom := (from_.map fun f => f.1.memberId.getD f.1.id).or r.takenFrom
               pausedWithProject := false }
    log project (.taskReleased number task.state .opened {})
    let requester ← participantRow task.requester
    let s ← state
    let bound := (from_.map fun f => s.boundTo task.id f.1).getD []
    let _ ← sendNote project requester.handle (some number) (takenBackNote task because bound from_)
    releaseReady project
    taskById task.id

/-- `release_task`. -/
def releaseTask (project number : Nat) (because : String) : LedgerM Task :=
  releaseInside project number because false

end ConsensFlow
