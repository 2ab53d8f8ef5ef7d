/-
  File:      ConsensFlow/Staff.lean
  Subject:   A MEMBER'S SESSIONS, AND WHO MAY TAKE A TASK (`staff/sessions.rs`,
             `staff/pools.rs`, `staff/quota.rs`).

  * `startSession`, `bringBack`, `closeSession` -- a session comes, returns and goes;
  * **`requireFree`** -- the rule of one task at a time: what keeps a task out of a window
    (`Ledger.holder`), and the refusal that names it;
  * `followUpSession` -- the session that did a task, and what a follow-up for it waits behind;
  * `nearestTier`, `hasMembersOfTier` -- the tier a task for a pool goes to;
  * `markOut`, `markBack` -- a member out of quota, and back.
-/
import ConsensFlow.Telling
import ConsensFlow.Clock

namespace ConsensFlow

open Lib Lib.Text Txn

/-! ## 1. What a window has in hand -/

/-- `MEMBER_ROLES.contains(role)`. -/
def Participant.isMembers (p : Participant) : Bool := Role.memberRoles.contains p.role

/-- How a task comes to a session. -/
inductive Giving where
  | task
  | sentBack (number : Nat)
  | resumed (number : Nat)
  deriving DecidableEq, Repr

/-- Whether task `t` keeps `giving` out of the window of `participant`. -/
def Giving.keptOutBy (giving : Giving) (participant : Nat) (t : Task) : Bool :=
  t.assignee == some participant &&
    match giving with
    | .resumed own => t.number != own && t.state.held
    | .task | .sentBack _ => t.number != 0 && (t.state.held || t.state == .paused)

/-- `holder`: the task that keeps `giving` out of a window, one at work before a paused one, the
    oldest of those. -/
def Ledger.holder (s : Ledger) (participant : Nat) (giving : Giving) : Option Task :=
  let found := s.tasks.rows.filter (giving.keptOutBy participant)
  (found.find? fun t => t.state != .paused).or found.head?

/-- The refusal of a task for a window that `held` holds. -/
def sessionBusy (taker : Participant) (held : Task) (giving : Giving) : LedgerError :=
  let n := held.number
  let freeIt := if held.state = .paused then s!"resume T-{n} and wait for its result, or cancel T-{n}"
    else s!"wait for its result, or cancel T-{n}"
  let door := match giving with
    | .task => "giving it another task; or open the task for its tier"
    | .sentBack number => s!"sending T-{number} back; or open a new task for its tier"
    | .resumed number => s!"resuming T-{number}"
  .refused "session-busy"
    s!"@{taker.handle}'s window holds T-{n}, {held.state.word}: {freeIt}, before {door}" 409

section Lookups

variable {R : Ledger → Ledger → Prop} [Frame R]

/-- **A member session takes one task at a time**: refused while its window holds another. The
    chief, the human and a member's own lane are no sessions, and are held to nothing. -/
def requireFree (taker : Participant) (giving : Giving) : LedgerTxn R Unit :=
  if taker.memberId.isNone then pure ()
  else do
    let s ← state
    match s.holder taker.id giving with
    | none => pure ()
    | some held => refuse (sessionBusy taker held giving)

/-- Whether a session can take a follow-up: it is on the board, or it left and may come back. -/
def canContinue (session : Participant) : LedgerTxn R Bool :=
  if session.leftAt.isNone then pure true
  else do
    let memberHere ← match session.memberId with
      | some member => (fun m => m.leftAt.isNone) <$> participantRow member
      | none => pure false
    let s ← state
    let hadOne := s.conversations.rows.any fun c => c.participant == session.id
    let lost := hadOne && (s.currentConversation session.id).isNone
    pure (memberHere && !lost)

end Lookups

/-- `has_task_in_hand`: queued, working or waiting, or paused. -/
def Ledger.hasTaskInHand (s : Ledger) (participant : Nat) : Bool :=
  s.tasks.rows.any fun t => t.assignee == some participant && (t.state.held || t.state == .paused)

/-- The numbers of the tasks of a session whose result is in and not decided, oldest first. -/
def Ledger.undecidedResults (s : Ledger) (session : Nat) : List Nat :=
  ((s.tasks.rows.filter fun t => t.assignee == some session && t.state == .done &&
    t.deletedAt.isNone).map (·.number)).insertionSort (· ≤ ·)

/-- The numbers of the tasks that wait on the board for a participant, oldest first. -/
def Ledger.waitingFor (s : Ledger) (participant : Nat) : List Nat :=
  (s.tasks.rows.filter fun t => t.assignee == some participant && t.state == .opened).map (·.number)

/-! ## 2. Sessions -/

def Ledger.handleFree (s : Ledger) (project : Nat) (handle : String) : Bool :=
  !s.participants.rows.any fun p => p.project == project && p.handle == handle

/-- The handle of a member's new session. `names` is what the ledger's drawing of names gives:
    sixteen draws at most, and the last name drawn takes the first number free. -/
def Ledger.sessionHandle (s : Ledger) (project : Nat) (member : Participant)
    (names : List String) : String :=
  let free := fun name => s.handleFree project s!"{member.handle}-{name}"
  let drawn := names.take 16
  let name := (drawn.find? free).getD (drawn.getLastD "")
  let handle := s!"{member.handle}-{name}"
  if s.handleFree project handle then handle
  else
    let numbered := (List.range (s.participants.rows.length + 1)).map fun i => s!"{handle}-{i + 2}"
    (numbered.find? (s.handleFree project)).getD handle

/-- `start_session`: a member's new session, with the role its task needs. -/
def startSession (project : Nat) (member : Participant) (role : Role) (names : List String) :
    LedgerM Participant := do
  let s ← state
  let handle := s.sessionHandle project member names
  let t ← now
  let id ← insertParticipant
    { project, handle, role, roles := member.roles, harness := member.harness,
      model := member.model, effort := member.effort, modelName := member.modelName,
      designer := member.designer, tier := member.tier, memberId := some member.id,
      createdAt := t }
  log project (.other "session.started" none)
  participantRow id

/-- `bring_back`: a session that left the board comes back for its follow-up. -/
def bringBack (session : Participant) : LedgerM Participant :=
  if session.leftAt.isNone then pure session
  else do
    updateParticipant session.id fun p => { p with leftAt := none }
    log session.project (.other "session.returned" none)
    participantRow session.id

/-- `close_session`: a session leaves the board; its conversation closes with it unless kept. -/
def closeSession (session : Participant) (keepConversation : Bool) : LedgerM Unit := do
  let t ← now
  updateParticipant session.id fun p => { p with leftAt := some t }
  doWhen (!keepConversation)
    (updateConversations (fun c => c.participant == session.id && c.endedAt.isNone)
      fun c => { c with endedAt := some t })
  log session.project (.other "session.ended" none)

/-- `end_session`: the human deletes a session, whose conversation is kept. -/
def endSession (project : Nat) (handle by_ : String) : LedgerM Project := inWrite do
  let _ ← participantByHandle project by_
  let session ← participantByHandle project handle
  require session.memberId.isSome
    (.refused "not-a-session" s!"@{handle} is not a session" 409)
  let s ← state
  require (!s.tasks.rows.any fun t => t.assignee == some session.id && t.state.held)
    (.refused "session-busy" s!"@{handle} still holds work: accept, cancel or pause it first" 409)
  let waiting := s.waitingFor session.id
  require waiting.isEmpty
    (.refused "session-busy"
      s!"@{handle} has work waiting for it on the board ({taskNumbers waiting}): cancel it first"
      409)
  closeSession session true
  projectRow project

/-! ## 3. A follow-up's session -/

/-- The session that did a task, and the tasks a follow-up for it waits for. -/
structure FollowUp where
  session : Participant
  behind : List Nat

def noWindowYet (after : Nat) : LedgerError :=
  .refused "no-window-yet"
    s!"T-{after} has no window yet: nobody has taken it. Add the next step for a tier with --needs T-{after}, and it waits until T-{after} is accepted"
    409

def inALane (after : Nat) (lane : Participant) : LedgerError :=
  .refused "no-window-yet"
    s!"T-{after} was given to @{lane.handle} by name, which has no window of its own to continue. Add the next step for a tier with --needs T-{after}, and it waits until T-{after} is accepted"
    409

def sessionEnded (after : Nat) : LedgerError :=
  .refused "session-ended"
    s!"the session that did T-{after} has ended: open the task for its tier instead" 409

/-- The tasks a follow-up of `previous` in `session` waits behind: `previous` while it is at work,
    and every task of the window whose result is in and not decided. -/
def Ledger.behind (s : Ledger) (previous : Task) (session : Participant) : List Nat :=
  let atWork := session.leftAt.isNone &&
    (previous.state.held || previous.state == .opened || previous.state == .paused)
  let first := if atWork then [previous.number] else []
  let rest := (s.undecidedResults session.id).filter fun n => !first.contains n
  (first ++ rest).insertionSort (· ≤ ·)

/-- `follow_up_session`. -/
def followUpSession (project after : Nat) : LedgerM FollowUp := do
  let previous ← taskRow project after
  let id ← found previous.assignee (noWindowYet after)
  let assignee ← participantRow id
  require (!(assignee.memberId.isNone && assignee.leftAt.isNone && assignee.isMembers))
    (inALane after assignee)
  require assignee.memberId.isSome (sessionEnded after)
  let continues ← canContinue assignee
  require continues (sessionEnded after)
  let s ← state
  let behind := s.behind previous assignee
  doWhen behind.isEmpty (requireFree assignee .task)
  let session ← bringBack assignee
  pure { session, behind }

/-! ## 4. Pools and tiers -/

/-- `TIERS`. -/
def Tier.all : List Tier := [.critical, .complex, .standard, .light]

/-- `has_members_of_tier`: whether the staff has members of a role and tier (any when none). -/
def Ledger.hasMembersOfTier (s : Ledger) (project : Nat) (pool : Role) (tier : Option Tier) : Bool :=
  s.participants.rows.any fun p => p.project == project && (tier.isNone || p.tier == tier) &&
    p.leftAt.isNone && p.memberId.isNone && p.roles.contains pool

/-- `nearest_tier`: the one asked, when somebody holds it; else the nearest one somebody does, the
    next one up before the next one down. -/
def Ledger.nearestTier (s : Ledger) (project : Nat) (pool : Role) : Option Tier → Option Tier
  | none => none
  | some asked =>
    if s.hasMembersOfTier project pool (some asked) then some asked
    else
      let at_ := Tier.all.idxOf asked
      let near := (Tier.all.filter (· != asked)).insertionSort fun a b =>
        let i := Tier.all.idxOf a
        let j := Tier.all.idxOf b
        let di := (i - at_) + (at_ - i)
        let dj := (j - at_) + (at_ - j)
        di < dj ∨ (di = dj ∧ i ≤ j)
      some ((near.find? fun t => s.hasMembersOfTier project pool (some t)).getD asked)

/-- `holders_of_tier`: the handles of the active members of a pool at a tier, in join order. -/
def Ledger.holdersOfTier (s : Ledger) (project : Nat) (pool : Role) (tier : Tier) : List String :=
  (s.participants.rows.filter fun p => p.project == project && p.leftAt.isNone &&
    p.memberId.isNone && p.roles.contains pool && p.tier == some tier).map (·.handle)

/-! ## 5. Quota -/

/-- `mark_out`: a member that ran out of quota takes no work until `until_`. -/
def markOut (participant : Nat) (until_ reason : String) : LedgerM Participant := do
  let reset ← found (parseTime until_) (.wrong "invalid-time" s!"not a time: {quoted until_}")
  let kept ← found (canonicalTime until_) (.wrong "invalid-time" s!"not a time: {quoted until_}")
  requireText reason "reason" 1000
  inWrite do
    let member ← participantRow participant
    let t ← now
    let outUntil := member.outUntil.bind parseTime
    let out := outUntil.any fun u => decide (t < u)
    if out && outUntil.any fun u => decide (reset ≤ u) then pure member
    else do
      let since := if out then member.outSince else some t
      updateParticipant member.id fun p => { p with outUntil := some kept, outSince := since }
      log member.project (.other "member.out" none)
      participantRow member.id

/-- Whether a member is not out of quota any more. -/
def Participant.isBack (p : Participant) (t : Time) : Bool :=
  match p.outUntil with
  | none => true
  | some u => (parseTime u).any fun u => decide (u ≤ t)

/-- A member is back at `t`, and what was held for it goes on at once. -/
def cameBack (member : Participant) (t : Time) : LedgerM Participant := do
  updateParticipant member.id fun p => { p with outUntil := none, outSince := some t }
  let s ← state
  let windows := (s.participants.rows.filter fun p =>
    p.id == member.id || p.memberId == some member.id).map (·.id)
  setTasks (fun r => r.state == .paused && (r.heldUntil.any fun u => decide (iso t < u)) &&
      (r.assignee.any windows.contains))
    (fun r => { r with heldUntil := some (iso t) }) (by
      intro r hr
      simp only [Bool.and_eq_true, beq_iff_eq, Option.any_eq_true_iff_get] at hr
      obtain ⟨⟨hs, hu, -⟩, -⟩ := hr
      simp [Task.card, Keyed.rekey, hs, TaskState.phase, hu])
  log member.project (.other "member.back" none)
  participantRow member.id

/-- `mark_back`: a member out of quota is back before its reset. -/
def markBack (participant : Nat) (because : String) : LedgerM Participant := do
  requireText because "because" 1000
  inWrite do
    let member ← participantRow participant
    let t ← now
    if member.isBack t then pure member else cameBack member t

end ConsensFlow
