/-
  File:      ConsensFlow/Editing.lean
  Subject:   A BRIEF, A TIER OR THE PLAN AROUND A TASK CHANGED (`tasks/editing.rs`).

  * `requireNotGiven` -- a task a window was given is not edited;
  * `replaceBrief` -- the brief replaced, with the task messages that say it and have not begun:
    the one program that changes the words of a participant's message;
  * `relink` -- what the task needs and what waits for it: unlinked first, then linked edge by
    edge, each held to the plan's having no circle;
  * `editTaskWith`, `retitleTask`, `tellOpen`.
-/
import ConsensFlow.Giving

namespace ConsensFlow

open Lib Lib.Text Txn

/-! ## 1. Not given yet -/

/-- `given`: the refusal of a task a window has. -/
def given {R : Ledger → Ledger → Prop} [Frame R] (task : Task) (instead : String) :
    LedgerTxn R Unit := do
  let window ← match task.assignee with
    | none => pure "a window"
    | some id => (fun p => s!"@{p.handle}") <$> participantRow id
  refuse (.refused "already-given"
    s!"cannot edit T-{task.number}: it was given to {window}, which has the brief; {instead}" 409)

/-- `require_not_given`: it waits for a window, and no task message of it began to reach one. -/
def requireNotGiven {R : Ledger → Ledger → Prop} [Frame R] (task : Task) : LedgerTxn R Unit := do
  let s ← state
  let tell := s!"tell its window: cf tell T-{task.number} \"…\""
  match task.state with
  | .working | .waiting => given task tell
  | .done | .failed =>
    given task s!"reopen it with your words: cf task reopen T-{task.number} \"…\""
  | .accepted | .cancelled =>
    refuse (.refused "invalid-transition"
      s!"cannot edit T-{task.number}: it is {task.state.word}" 409)
  | .paused | .queued => if s.briefBegun task.id then given task tell else pure ()
  | .opened =>
    if s.briefBegun task.id then
      given task s!"tell it now, and the window that takes it has your words in its brief: cf tell T-{task.number} \"…\""
    else pure ()

/-! ## 2. The brief -/

/-- A program that may change the words of messages. -/
abbrev RewriteM := LedgerTxn (Kept { rewrites := fun _ => True })

instance Kept.rewritten : Frame (Kept { rewrites := fun _ => True }) := inferInstance

instance : MonadLift LedgerM RewriteM := ⟨fun m => Txn.lift (fun _ _ h => h.excused _) m⟩

@[simp] theorem run_liftRewrite {α : Type} (m : LedgerM α) (s : Ledger) :
    (liftM m : RewriteM α).run s = m.run s := rfl

/-- What a task message that says the old brief says now: one that is it, or begins with it. -/
def renewed (old words body : String) : Option String :=
  if body == old then some words
  else do
    let rest ← stripPrefix old.toList body.toList
    let rest ← stripPrefix "\n\n".toList rest
    some s!"{words}\n\n{String.ofList rest}"

/-- A task message still waiting for the window. -/
def Message.unbegunBrief (m : Message) (task : Nat) : Bool :=
  m.task == some task && m.kind == .task && (m.state == .queued || m.state == .gated)

theorem kept_renewed (s : Ledger) (q : Message → Bool) (words : Message → String) :
    Kept { rewrites := fun _ => True } s
      (s.withMessages q fun m => { m with body := words m }) := by
  refine kept_withMessages s _ _ (fun m _ => ?_) fun _ =>
    tight_withMessages (fun _ _ _ => ⟨rfl, Or.inl rfl⟩) fun _ _ _ => .same rfl rfl rfl
  unfold Table.altered
  split
  · exact ⟨rfl, fun _ hc _ _ => hc, fun _ _ h => ⟨h.state, h.alone⟩, fun _ k => absurd trivial k⟩
  · exact Handled.refl _ s m

/-- The task messages that say the brief say the new one. -/
def renewBriefs (task : Nat) (old words : String) : RewriteM Unit :=
  write (fun s => s.withMessages (fun m => m.unbegunBrief task && (renewed old words m.body).isSome)
      fun m => { m with body := (renewed old words m.body).getD m.body })
    (fun s => kept_renewed s _ _)

/-- `replace_brief`. -/
def replaceBrief (task : Task) (body : String) (t : Time) : RewriteM Unit := do
  let row ← (do
    setTasks (fun r => r.id == task.id) fun r =>
      { r with body, title := titleOf body, updatedAt := t }
    taskById task.id : LedgerM Task)
  renewBriefs task.id (deliveryBody task) (deliveryBody row)
  (log task.project (.other "task.edited" none) : LedgerM Unit)

/-! ## 3. The plan around a task -/

/-- A list of links replaced, or some added and some removed. -/
inductive Links where
  | set (numbers : List Nat)
  | change (add remove : List Nat)
  deriving DecidableEq, Repr

/-- What is replaced of a task. -/
structure TaskEdit where
  body : Option String := none
  tier : Option Tier := none
  needs : Option Links := none
  before : Option Links := none
  deriving DecidableEq, Repr

/-- `sorted`: in order, each once. -/
def sorted (numbers : List Nat) : List Nat := (numbers.insertionSort (· ≤ ·)).dedup

/-- The links there are to be, of those `held`. -/
def Links.wanted (held : List Nat) : Links → List Nat
  | .set numbers => sorted numbers
  | .change add remove =>
    sorted ((held ++ add).filter fun n => !remove.contains n || add.contains n)

def circle (waiter waited : Nat) : LedgerError :=
  .refused "circular-needs"
    s!"T-{waiter} cannot wait for T-{waited}: that makes a circle, and a plan has none" 409

/-- Task `task` needs T-`added` from now on. -/
def linkNeed (project : Nat) (task : Task) (added : Nat) : LedgerM Unit := do
  let need ← taskRow project added
  let s ← state
  require (!(need.id == task.id || s.upstream need.id task.id)) (circle task.number added)
  require (need.state != .cancelled) (needCancelled added)
  doWhen (need.state != .accepted) (requireOnBoard need "wait for")
  insertNeed task.id need.id

/-- T-`added` waits for task `task` from now on. -/
def linkWaiter (project : Nat) (task : Task) (added : Nat) : LedgerM Unit := do
  let waits ← taskRow project added
  let s ← state
  require (!(waits.id == task.id || s.upstream task.id waits.id)) (circle added task.number)
  require (waits.state == .opened)
    (.refused "not-on-the-board"
      s!"T-{added} is {waits.state.word}: only a task still on the board can wait for T-{task.number}"
      409)
  insertNeed waits.id task.id

/-- Task `task` needs T-`other` no more. -/
def unlinkNeed (project : Nat) (task : Task) (other : Nat) : LedgerM Unit := do
  let o ← taskRow project other
  deleteNeed task.id o.id

/-- T-`other` waits for task `task` no more. -/
def unlinkWaiter (project : Nat) (task : Task) (other : Nat) : LedgerM Unit := do
  let o ← taskRow project other
  deleteNeed o.id task.id

/-- A task queued for a window that now waits for what is not accepted waits on the board for
    it; one paused with a window, or given by name, cannot. -/
def backToWait (project : Nat) (task : Task) (by_ : String) : LedgerM Unit := do
  let s ← state
  let blocked := (s.needed task.id).any fun d => d.state != .accepted
  let why := if task.pool.isNone then "given by name, not by tier"
    else "and the pause keeps it there: resume it, or cancel it"
  if blocked && task.assignee.isSome && task.state != .opened then do
    require (task.state == .queued && task.pool.isSome)
      (.refused "invalid-transition"
        s!"cannot make T-{task.number} wait for what is not accepted: it is {task.state.word} with a window, {why}"
        409)
    let _ ← releaseInside project task.number s!"it now waits for what it needs, by @{by_}" true
    pure ()
  else pure ()

/-- `relink`: what waits for the task now, when that was asked. -/
def relink (project number : Nat) (by_ : String) (edit : TaskEdit) :
    LedgerM (Option (List Nat)) := do
  let task ← taskRow project number
  let s ← state
  let needs := (s.needed task.id).map (·.number)
  let waiters := (s.needing task.id).map (·.number)
  let needsNow := edit.needs.map (Links.wanted needs)
  let waitersNow := edit.before.map (Links.wanted waiters)
  (needs.filter fun n => needsNow.any fun now => !now.contains n).forM (unlinkNeed project task)
  (waiters.filter fun n => waitersNow.any fun now => !now.contains n).forM
    (unlinkWaiter project task)
  ((needsNow.getD []).filter fun n => !needs.contains n).forM (linkNeed project task)
  ((waitersNow.getD []).filter fun n => !waiters.contains n).forM (linkWaiter project task)
  backToWait project task by_
  log project (.other "task.linked" none)
  releaseReady project
  pure waitersNow

/-! ## 4. Edited -/

/-- `tier_for`: the tier a task asked for `wanted` goes to. -/
def tierFor {R : Ledger → Ledger → Prop} [Frame R] (project : Nat) (task : Task) (wanted : Tier) :
    LedgerTxn R Tier := do
  let why := if task.pool.isSome then "the image designer has no tier"
    else "it was given by name, not by tier"
  let pool ← found (task.pool.filter fun p => p != .designer)
    (.refused "invalid-transition" s!"cannot change the tier of T-{task.number}: {why}" 409)
  require (!(wanted == .critical && !isPurpose task.purpose))
    (.wrong "purpose-required"
      s!"critical work names its purpose ({commas purposes}), and T-{task.number} has none: cancel it and add it again")
  let s ← state
  let tier := (s.nearestTier project pool (some wanted)).getD wanted
  require (s.hasMembersOfTier project pool (some tier))
    (.refused "no-member-of-tier"
      s!"no {pool.word} is on the staff: ask the human for one, in your terminal" 409)
  pure tier

/-- What an edit gives back: the task, the tier asked where it went to another with who holds
    that, and what waits for the task. -/
structure TaskEdited where
  task : Task
  asked : Option Tier := none
  holders : List String := []
  waiting : Option (List Nat) := none

/-- The tier of `task` becomes `tier`: where a member's window waited for its brief, it goes back
    to the board, unless that member holds the tier. -/
def retier (project : Nat) (task : Task) (by_ : String) (tier : Tier) (t : Time) : LedgerM Unit := do
  setTasks (fun r => r.id == task.id) fun r => { r with tier := some tier, updatedAt := t }
  logRetiered project
  match task.assignee with
  | none => pure ()
  | some id => do
    let window ← participantRow id
    if window.tier == some tier then pure ()
    else do
      let _ ← releaseInside project task.number s!"its tier was changed to {tier.word} by @{by_}" true
      pure ()

/-- The tier an edit moves the task to, where that is another. -/
def editTier (project : Nat) (task : Task) (by_ : String) (t : Time) : Option Tier → LedgerM Unit
  | none => pure ()
  | some tier => doWhen (task.tier != some tier) (retier project task by_ tier t)

/-- The links an edit asks for, if it does: what waits for the task now. -/
def editLinks (project number : Nat) (by_ : String) (edit : TaskEdit) :
    LedgerM (Option (List Nat)) :=
  if edit.needs.isSome || edit.before.isSome then relink project number by_ edit else pure none

/-- What an edit does after the brief. -/
def editPlan (project : Nat) (task : Task) (by_ : String) (edit : TaskEdit) (moving : Option Tier)
    (t : Time) : LedgerM TaskEdited := do
  editTier project task by_ t moving
  let s ← state
  let other := moving.filter fun tier => edit.tier != some tier
  let waiting ← editLinks project task.number by_ edit
  let row ← taskById task.id
  pure
    { task := row, asked := if other.isSome then edit.tier else none
      holders := (other.map (s.holdersOfTier project (task.pool.getD .worker))).getD []
      waiting }

/-- The task an edit is of, and the tier it goes to. -/
def editedTask (project number : Nat) (by_ : String) (edit : TaskEdit) :
    LedgerM (Task × Option Tier) := do
  let _ ← participantByHandle project by_
  let task ← taskRow project number
  requireOnBoard task "edit"
  requireNotGiven task
  let moving ← match edit.tier with
    | some wanted => some <$> tierFor project task wanted
    | none => pure none
  pure (task, moving)

/-- The checks of an edit, before anything is written. -/
def editChecks (project number : Nat) (by_ : String) (edit : TaskEdit) :
    LedgerM (Task × Option Tier) := do
  let links := edit.needs.isSome || edit.before.isSome
  match edit.body with
  | some body => requireText body "body" maxBody
  | none => doWhen (edit.tier.isNone && !links) (requireText "" "body" maxBody)
  editedTask project number by_ edit

/-- `edit_task_with`. -/
def editTaskWith (project number : Nat) (by_ : String) (edit : TaskEdit) :
    RewriteM TaskEdited := inWrite do
  let (task, moving) ← (editChecks project number by_ edit : LedgerM (Task × Option Tier))
  let t ← (now : LedgerM Time)
  match edit.body with
  | some body => do
    replaceBrief task body t
    (editPlan project task by_ edit moving t : LedgerM TaskEdited)
  | none => (editPlan project task by_ edit moving t : LedgerM TaskEdited)

/-- `retitle_task`: a title is the board's label, in any state. -/
def retitleTask (project number : Nat) (by_ title : String) : DeskM Task := do
  requireText title "title" maxBody
  let title := titleOf title
  inWrite do
    let _ ← participantByHandle project by_
    let task ← taskRow project number
    doWhen (task.title != title) (do
      let t ← now
      setTasks (fun r => r.id == task.id) fun r => { r with title, updatedAt := t }
      log project (.other "task.retitled" none))
    taskById task.id

/-- `tell_open`: words told to an open task are added to its brief. -/
def tellOpen (project number : Nat) (sender words : String) : DeskM Task := do
  requireText words "body" maxBody
  inWrite do
    let _ ← participantByHandle project sender
    let task ← taskRow project number
    requireTaskState task (· == .opened) "tell the window of"
    let own ← isOwnStep task
    require (!own)
      (.refused "own-work"
        s!"T-{number} is the chief's own step: its brief is yours to change: cf task edit T-{number} \"…\""
        409)
    let told := s!"{task.body}\n\nTold by @{sender} before a window had it: {words}"
    requireText told "body" maxBody
    let t ← now
    setTasks (fun r => r.id == task.id) fun r => { r with body := told, updatedAt := t }
    log project (.other "task.told" none)
    taskById task.id

end ConsensFlow
