/-
  File:      ConsensFlow/Resumed.lean
  Subject:   WHAT A PROJECT'S RESUME SENDS ON: its tasks are at work at once, and none of them is
             queued again.

  * `Ledger.QueuesNone` -- no task is queued that was not before;
  * **`setProjectState_queuesNone`** -- a project's Close, and its Resume, queue none.
-/
import ConsensFlow.Untouched
import ConsensFlow.Projects

namespace ConsensFlow

open Lib Txn

/-! ## 1. Tasks queued -/

/-- Each task that is queued was queued before. -/
def Ledger.QueuesNone (s s' : Ledger) : Prop :=
  ∀ t' ∈ s'.tasks.rows, t'.state = .queued →
    ∃ t ∈ s.tasks.rows, t.id = t'.id ∧ t.state = .queued

instance : Frame Ledger.QueuesNone where
  refl s t h hq := ⟨t, h, rfl, hq⟩
  trans h k t' ht hq := by
    obtain ⟨t, ht, e, hq⟩ := k t' ht hq
    obtain ⟨r, hr, er, hq⟩ := h t ht hq
    exact ⟨r, hr, er.trans e, hq⟩

section Statements

variable {R : Ledger → Ledger → Prop} {α : Type}

/-- A program that leaves the tasks queues none. -/
theorem queuesNone_of_leaves {m : LedgerTxn R α} (h : Leaves Ledger.tasks m) :
    Respects Ledger.QueuesNone m := by
  refine .of_leaves h fun s s' e t ht hq => ⟨t, ?_, rfl, hq⟩
  rw [← e]
  exact ht

/-- A statement on one task that does not queue it. -/
theorem queuesNone_updateTask (id : Nat) (f : Task → Task)
    (h : ∀ t, (f t).state = .queued → t.state = .queued) :
    Respects Ledger.QueuesNone (updateTask id f) := by
  intro s u s' run
  obtain ⟨rfl, -⟩ := updateTask_ok run
  intro t' ht hq
  obtain ⟨t, hr, rfl⟩ := Table.mem_alter.mp ht
  refine ⟨t, hr, (Table.key_altered _ _ t).symm, ?_⟩
  unfold Table.altered at hq
  split at hq
  · exact h t hq
  · exact hq

/-- A task moves to a state other than `queued`. -/
theorem queuesNone_moveTask (task : Task) {next : TaskState} (detail : Detail)
    (h : next ≠ .queued) : Respects Ledger.QueuesNone (moveTask task next detail) :=
  .bind (queuesNone_of_leaves leaves_now) fun _ =>
    .bind (queuesNone_updateTask _ _ fun _ hq => absurd hq h) fun _ =>
    .bind (queuesNone_of_leaves (leaves_logOf _ _)) fun _ =>
    queuesNone_of_leaves (leaves_afterMove _ _)

end Statements

/-! ## 2. The mail of a task left paused -/

theorem leaves_messageTask (id : Nat) :
    Leaves Ledger.tasks (messageTask id : DeskM (Option Task)) :=
  .bind .state fun _ => .pure _

theorem leaves_withdrawnIfStale (m : Message) : Leaves Ledger.tasks (withdrawnIfStale m) := by
  refine .bind .state fun s => ?_
  split
  · exact .pure _
  · exact .bind (leaves_withdrawEach _ _ _) fun _ => .pure _

theorem leaves_withdrawStaleAmong (ids : List Nat) :
    Leaves Ledger.tasks (withdrawStaleAmong ids) := by
  refine .forM fun id => .bind .state fun s => ?_
  split
  · exact .pure _
  · exact .bind (leaves_withdrawnIfStale _) fun _ => .pure _

theorem leaves_releaseCarried (task : Nat) : Leaves Ledger.tasks (releaseCarried task) :=
  .bind .state fun _ => .bind (leaves_setMessages _ _ _) fun _ => leaves_withdrawStaleAmong _

theorem leaves_cancelMessage (id : Nat) (reason : String) :
    Leaves Ledger.tasks (cancelMessage id reason) := by
  refine .bind (leaves_requireText _ _ _) fun _ => .inWrite ?_
  refine .bind .state fun _ => .bind (.found _ _) fun m =>
    .bind (leaves_setMessages _ _ _) fun _ => .bind (leaves_log _ _ _) fun _ =>
    .bind (leaves_messageTask _) fun task => ?_
  cases task with
  | none => exact leaves_knownMessage _
  | some t => exact .bind (leaves_releaseCarried _) fun _ => leaves_knownMessage _

theorem leaves_withdrawQueuedWakeUp (project : Nat) (reason : String) :
    Leaves Ledger.tasks (withdrawQueuedWakeUp project reason) := by
  refine .bind .state fun s => ?_
  split
  · exact .pure _
  · exact .doWhen _ (.bind (leaves_cancelMessage _ _) fun _ => .pure _)

theorem leaves_stopWindow (task : Task) : Leaves Ledger.tasks (stopWindow task) := by
  unfold stopWindow
  split
  · exact .pure _
  · refine .bind (.bind (leaves_taskById _) fun _ => leaves_setMessages _ _ _) fun _ =>
      .bind .state fun _ => .forM fun _ => ?_
    exact .bind (leaves_setMessages _ _ _) fun _ => leaves_log _ _ _

theorem leaves_takeBackUnsent (task : Task) (author : Option Participant) :
    Leaves Ledger.tasks (takeBackUnsent task author) := by
  unfold takeBackUnsent
  split
  · exact .bind (leaves_setMessages _ _ _) fun _ => leaves_releaseCarried _
  · exact .pure _

theorem leaves_joinPauseNote (id number : Nat) (because : String) (harnessGone : Bool) :
    Leaves Ledger.tasks (joinPauseNote id number because harnessGone) := by
  refine .inWrite (.bind .state fun s => ?_)
  split
  · exact .pure _
  · split
    · exact .pure _
    · exact .bind (.doWhen _ (leaves_setPaused _ _ _)) fun _ => .bind .state fun _ => .pure _

theorem leaves_tellLeftPaused (told : List (Nat × Nat)) (task : Task) (because : String) :
    Leaves Ledger.tasks (tellLeftPaused told task because) := by
  have own (joined : Option Message) : Leaves Ledger.tasks
      (if joined.isSome then (Pure.pure told : DeskM (List (Nat × Nat))) else do
        let requester ← participantRow task.requester
        let note ← notePause task.project requester.handle task.number because false
        Pure.pure (told ++ [(task.requester, note.id)])) :=
    .ite (.pure _) (.bind (leaves_participantRow _) fun _ => .bind (leaves_sendNote _ _ _ _)
      fun _ => .pure _)
  unfold tellLeftPaused
  split
  · exact .bind (leaves_joinPauseNote _ _ _ _) own
  · exact .bind (.pure _) own

/-! ## 3. A pause -/

theorem queuesNone_pause (task : Task) (detail : Detail) (withProject : Bool) (stops : Stops) :
    Respects Ledger.QueuesNone (pause task detail withProject stops) :=
  .bind (queuesNone_moveTask task _ (by decide)) fun _ =>
    .bind (queuesNone_updateTask _ _ fun _ hq => hq) fun _ => .bind .state fun _ =>
    .bind (.doWhen _ (queuesNone_updateTask _ _ fun _ hq => hq)) fun _ =>
    queuesNone_of_leaves (leaves_stopWindow _)

theorem queuesNone_pauseTaskAs (project number : Nat) (author because : Option String)
    (withProject : Bool) :
    Respects Ledger.QueuesNone (pauseTaskAs project number author because withProject) := by
  have said : Respects Ledger.QueuesNone (requireBecause because : LedgerM Unit) := by
    cases because with
    | none => exact .pure _
    | some words => exact queuesNone_of_leaves (leaves_requireText _ _ _)
  have known : Respects Ledger.QueuesNone (authorOf project author : LedgerM _) := by
    cases author with
    | none => exact .pure _
    | some handle => exact .map _ (queuesNone_of_leaves (leaves_participantByHandle _ _))
  have taken (task : Task) (by_ : Option Participant) :
      Respects Ledger.QueuesNone (takenOver task by_) := by
    cases by_ with
    | none => exact .pure _
    | some p =>
      refine .bind .state fun _ => .bind (.doWhen _ ?_) fun _ => .pure _
      exact .bind (queuesNone_updateTask _ _ fun _ hq => hq) fun _ =>
        queuesNone_of_leaves (leaves_log _ _ ⟨rfl, rfl⟩)
  have notChiefs (task : Task) :
      Respects Ledger.QueuesNone (requireNotChiefs task : LedgerM Unit) := by
    unfold requireNotChiefs
    split
    · exact .pure _
    · exact .bind (queuesNone_of_leaves (leaves_participantRow _)) fun _ => .require _ _
  refine .bind said fun _ => .bind known fun by_ => .bind
    (queuesNone_of_leaves (leaves_taskRow _ _)) fun task => .bind (taken task by_) fun _ =>
    .bind .state fun _ => .bind (.doWhen _ (queuesNone_of_leaves (leaves_requireTaskState _ _ _)))
    fun _ => .bind (notChiefs task) fun _ => ?_
  exact .bind (queuesNone_of_leaves (leaves_takeBackUnsent _ _)) fun _ =>
    .bind (.doWhen _ (queuesNone_pause _ _ _ _)) fun _ => queuesNone_of_leaves (leaves_taskById _)

/-! ## 4. A project is resumed -/

theorem queuesNone_leavePaused (project number : Nat) (because : String) (task : Task) :
    Respects Ledger.QueuesNone (leavePaused project number because task) := by
  unfold leavePaused
  split
  · refine .bind (.doWhen _ ?_) fun _ => .pure _
    exact .bind (queuesNone_updateTask _ _ fun _ hq => hq) fun _ =>
      .lift (queuesNone_of_leaves (leaves_leavePauseNotes _ _ _))
  all_goals first
    | exact .bind (queuesNone_pauseTaskAs _ _ _ _ _) fun _ => .pure _
    | exact .pure _

theorem queuesNone_leaveLane (project : Nat) (because : String) (numbers : List Nat)
    (told : List (Nat × Nat)) :
    Respects Ledger.QueuesNone (leaveLane project because numbers told) := by
  induction numbers generalizing told with
  | nil => exact .pure _
  | cons number rest ih =>
    refine .bind (queuesNone_of_leaves (leaves_taskRow _ _)) fun task =>
      .bind (queuesNone_leavePaused _ _ _ _) fun left => .bind ?_ fun told => ih told
    unfold tellIfLeft
    exact .ite (queuesNone_of_leaves (leaves_tellLeftPaused _ _ _)) (.pure _)

theorem queuesNone_leaveLanes (project : Nat) (lanes : List Participant)
    (told : List (Nat × Nat)) : Respects Ledger.QueuesNone (leaveLanes project lanes told) := by
  induction lanes generalizing told with
  | nil => exact .pure _
  | cons lane rest ih =>
    exact .bind .state fun _ => .bind (queuesNone_leaveLane _ _ _ _) fun told => ih told

/-- What the receipts move a task to is no queue. -/
theorem queuesNone_reconcile (task : Nat) : Respects Ledger.QueuesNone (reconcile task) := by
  have moves : Respects Ledger.QueuesNone (reconcileMove task) := by
    refine .bind (queuesNone_of_leaves (leaves_taskById _)) fun t => .bind .state fun s => ?_
    split
    · exact .pure _
    · next next moved =>
      refine queuesNone_moveTask t _ fun e => ?_
      subst e
      unfold Ledger.reconciled at moved
      split at moved
      · cases moved
      · repeat' split at moved
        all_goals cases moved
  exact fun s a s' run => moves s a s' run

theorem queuesNone_resumeWithProject (project : Nat) :
    Respects Ledger.QueuesNone (resumeWithProject project) := by
  refine .bind (.bind .state fun _ => queuesNone_leaveLanes _ _ _) fun _ => .bind .state fun _ =>
    .bind (.forM fun number => ?_) fun _ => ?_
  · exact .bind (queuesNone_of_leaves (leaves_taskRow _ _)) fun task =>
      .bind (.lift (queuesNone_of_leaves (leaves_leavePauseNotes _ _ _))) fun _ =>
      .bind (queuesNone_moveTask _ _ (by decide)) fun _ => .lift (queuesNone_reconcile _)
  · exact .lift (.bind .state fun _ => queuesNone_of_leaves (leaves_withdrawEach _ _ _))

theorem leaves_updateProject (id : Nat) (f : Project → Project)
    (h : ∀ q, (f q).gate = q.gate) : Leaves Ledger.tasks (updateProject id f h) := by
  unfold updateProject
  exact .write fun _ => rfl

theorem leaves_endMeeting (project : Nat) : Leaves Ledger.tasks (endMeeting project) :=
  .bind .state fun _ => .doWhen _ (.bind (.lift leaves_now) fun _ =>
    .bind (leaves_updateProject _ _ _) fun _ => .lift (leaves_log _ _ ⟨rfl, rfl⟩))

/-- **A project's Close, and its Resume, queue no task.** -/
theorem setProjectState_queuesNone (project : Nat) (state : ProjectState) :
    Respects Ledger.QueuesNone (setProjectState project state) := by
  have row := queuesNone_of_leaves (R := Kept .none) (leaves_projectRow (f := Ledger.tasks) project)
  refine .bind row fun p => .bind (.lift (queuesNone_of_leaves leaves_now)) fun t =>
    .bind (queuesNone_of_leaves (leaves_updateProject _ _ _)) fun _ => .bind (.doWhen _ (.bind
      (.lift (queuesNone_of_leaves (leaves_log _ _ ⟨rfl, rfl⟩))) fun _ => ?_)) fun _ => row
  cases state with
  | opened =>
    exact .bind (.lift (queuesNone_of_leaves (leaves_withdrawQueuedWakeUp _ _))) fun _ =>
      queuesNone_resumeWithProject _
  | suspended =>
    exact .bind (.lift (queuesNone_of_leaves (leaves_withdrawQueuedWakeUp _ _))) fun _ =>
      queuesNone_of_leaves (leaves_endMeeting _)

end ConsensFlow
