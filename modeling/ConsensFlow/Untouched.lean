/-
  File:      ConsensFlow/Untouched.lean
  Subject:   THE MAIL LEAVES THE TASKS AS THEY ARE: what is written as a note is sent, or as a task
             moves, but for the statement that moves it.
-/
import ConsensFlow.Giving
import ConsensFlow.Lib.Leaves

namespace ConsensFlow

open Lib Txn

/-! ## 1. Lookups and statements -/

section Lookups

variable {R : Ledger → Ledger → Prop} [Frame R] {γ : Type} {f : Ledger → γ}

theorem leaves_projectRow (id : Nat) : Leaves f (projectRow id : LedgerTxn R Project) :=
  .bind .state fun _ => .found _ _

theorem leaves_participantRow (id : Nat) : Leaves f (participantRow id : LedgerTxn R Participant) :=
  .bind .state fun _ => .found _ _

theorem leaves_participantByHandle (project : Nat) (handle : String) :
    Leaves f (participantByHandle project handle : LedgerTxn R Participant) :=
  .bind (leaves_projectRow project) fun _ => .bind .state fun _ => .bind (.found _ _) fun _ =>
    .bind (.require _ _) fun _ => .pure _

theorem leaves_taskRow (project number : Nat) :
    Leaves f (taskRow project number : LedgerTxn R Task) :=
  .bind .state fun _ => .found _ _

theorem leaves_taskById (id : Nat) : Leaves f (taskById id : LedgerTxn R Task) :=
  .bind .state fun _ => .found _ _

theorem leaves_knownMessage (id : Nat) : Leaves f (knownMessage id : LedgerTxn R Message) :=
  .bind .state fun _ => .found _ _

theorem leaves_requireText (value field : String) (max : Nat) :
    Leaves f (requireText value field max : LedgerTxn R Unit) := .require _ _

theorem leaves_requireTaskState (task : Task) (states : TaskState → Bool) (action : String) :
    Leaves f (requireTaskState task states action : LedgerTxn R Unit) :=
  .bind (.require _ _) fun _ => .require _ _

end Lookups

theorem leaves_now : Leaves Ledger.tasks now :=
  .bind .state fun _ => .bind (.write fun _ => rfl) fun _ => .pure _

theorem leaves_log (project : Nat) (what : What) (h : what.Quiet) :
    Leaves Ledger.tasks (log project what h) :=
  .bind leaves_now fun _ => .write fun _ => rfl

theorem leaves_logOf (project : Nat) (what : What) : Leaves Ledger.tasks (logOf project what) :=
  .bind leaves_now fun _ => .write fun _ => rfl

theorem leaves_setMessages (p : Message → Bool) (f : Message → Message)
    (h : ∀ m, p m = true → Plain m (f m)) : Leaves Ledger.tasks (setMessages p f h) := by
  unfold setMessages
  exact .write fun _ => rfl

theorem leaves_withdraw (id : Nat) (reason : String) :
    Leaves Ledger.tasks (withdraw id reason) := by
  unfold withdraw setMessage
  exact leaves_setMessages _ _ _

theorem leaves_withdrawEach (project : Nat) (ids : List Nat) (reason : String) :
    Leaves Ledger.tasks (withdrawEach project ids reason) :=
  .forM fun _ => .bind (leaves_withdraw _ _) fun _ => leaves_log _ _ _

theorem leaves_startSession (project : Nat) (member : Participant) (role : Role)
    (names : List String) : Leaves Ledger.tasks (startSession project member role names) := by
  unfold startSession
  refine .bind .state fun _ => .bind leaves_now fun _ => .bind ?_ fun _ =>
    .bind ?_ fun _ => leaves_participantRow _
  · exact .bind .state fun _ => .bind (.write fun _ => rfl) fun _ => .pure _
  · exact leaves_log _ _ ⟨rfl, rfl⟩

/-! ## 2. A message queued -/

theorem leaves_gateHolds (project : Nat) (sender : Option Nat) (whom : Nat) :
    Leaves Ledger.tasks (gateHolds project sender whom) := by
  unfold gateHolds
  split
  · exact .pure _
  · refine .ite (.pure _) (.bind (leaves_projectRow _) fun p => .ite (.pure _) ?_)
    exact .bind (leaves_participantRow _) fun a => .ite (.pure _)
      (.bind (leaves_participantRow _) fun b => .pure _)

theorem leaves_queueRow (project : Nat) (q : Queued) : Leaves Ledger.tasks (queueRow project q) :=
  .bind (leaves_gateHolds _ _ _) fun _ => .bind leaves_now fun _ => .bind .state fun _ =>
    .bind (.write fun _ => rfl) fun _ => .pure _

theorem leaves_adopt (id : Nat) : Leaves Ledger.tasks (adopt id) := by
  refine .write fun s => ?_
  unfold Ledger.adopted
  split <;> rfl

theorem leaves_queue (project : Nat) (q : Queued) (h : (q.kind != .task) = true) :
    Leaves Ledger.tasks (queue project q h) :=
  .bind (leaves_queueRow _ _) fun _ => .bind (.doWhen _ (leaves_adopt _)) fun _ => .pure _

theorem leaves_queueTask (project : Nat) (q : Queued) :
    Leaves Ledger.tasks (queueTask project q) :=
  .bind (leaves_queueRow _ _) fun _ => .pure _

theorem leaves_send (project : Nat) (m : Sent) (h : (m.kind != .task) = true) :
    Leaves Ledger.tasks (send project m h) := by
  have queued (q : Queued) (h : (q.kind != .task) = true) :
      Leaves Ledger.tasks (queue project q h >>= fun id => logSent project id >>= fun _ =>
        (knownMessage id : DeskM Message)) :=
    .bind (leaves_queue _ _ _) fun _ => .bind (leaves_log _ _ _) fun _ => leaves_knownMessage _
  unfold send
  refine .bind (leaves_requireText _ _ _) fun _ => .inWrite ?_
  cases m.sender with
  | none =>
    refine .bind (.pure _) fun _ => .bind (leaves_participantByHandle _ _) fun recipient => ?_
    split
    · exact .bind (.map _ (leaves_taskRow _ _)) fun _ => queued _ _
    · exact .bind (.pure _) fun _ => queued _ _
  | some handle =>
    refine .bind (.map _ (leaves_participantByHandle _ _)) fun _ =>
      .bind (leaves_participantByHandle _ _) fun recipient => ?_
    split
    · exact .bind (.map _ (leaves_taskRow _ _)) fun _ => queued _ _
    · exact .bind (.pure _) fun _ => queued _ _

theorem leaves_sendNote (project : Nat) (whom : String) (task : Option Nat) (body : String) :
    Leaves Ledger.tasks (sendNote project whom task body) := leaves_send _ _ _

theorem leaves_note (project : Nat) (n : NewNote) : Leaves Ledger.tasks (note project n) :=
  leaves_send _ _ _

/-! ## 3. The notes of a task that moves -/

theorem leaves_failedStill (project : Nat) (members : List Member) :
    Leaves Ledger.tasks (failedStill project members) :=
  .bind (.mapM fun _ => .bind (leaves_taskRow _ _) fun _ => .pure _) fun _ => .pure _

theorem leaves_waitingOf (task : Task) (requester : String) :
    Leaves Ledger.tasks (waitingOf task requester) := by
  refine .bind .state fun s => .bind (.mapM fun n => ?_) fun _ => .pure _
  exact .bind (leaves_taskRow _ _) fun _ => .bind (leaves_participantRow _) fun _ => .pure _

theorem leaves_renderTold (project : Nat) (whom : String) (members : List Member) :
    Leaves Ledger.tasks (renderTold project whom members) := by
  unfold renderTold
  split
  · refine .bind (leaves_taskRow _ _) fun t => .bind ?_ fun _ => .pure _
    exact .bind (leaves_waitingOf _ _) fun _ => .pure _
  · refine .bind ?_ fun _ => .pure _
    refine .bind (.mapM fun m => ?_) fun _ => .pure _
    exact .bind (leaves_taskRow _ _) fun _ => .bind (leaves_waitingOf _ _) fun _ => .pure _

theorem leaves_putTold (project : Nat) (whom key : String) (members : List Member)
    (replaces : List Nat) (why : String) :
    Leaves Ledger.tasks (putTold project whom key members replaces why) := by
  refine .bind (leaves_failedStill _ _) fun live => .ite ?_ ?_
  · exact .bind (leaves_withdrawEach _ _ _) fun _ => .pure _
  · exact .bind (leaves_renderTold _ _ _) fun _ => .bind (leaves_sendNote _ _ _ _) fun _ =>
      .bind (leaves_log _ _ _) fun _ => .bind (leaves_withdrawEach _ _ _) fun _ => .pure _

theorem leaves_mend (project : Nat) (told : Told) (why : String) :
    Leaves Ledger.tasks (mend project told why) := by
  refine .bind (leaves_failedStill _ _) fun live => .ite (leaves_withdrawEach _ _ _) ?_
  exact .bind (leaves_renderTold _ _ _) fun body => .bind .state fun s => .ite (.pure _)
    (.bind (leaves_putTold _ _ _ _ _ _) fun _ => .pure _)

theorem leaves_withdrawWaits (project waiting : Nat) (said why : String) :
    Leaves Ledger.tasks (withdrawWaits project waiting said why) :=
  .bind .state fun _ => leaves_withdrawEach _ _ _

theorem leaves_noLongerFailed (task : Task) (to_ : TaskState) :
    Leaves Ledger.tasks (noLongerFailed task to_) :=
  .bind .state fun _ => .bind (.forM fun _ => .ite (leaves_mend _ _ _) (.pure _)) fun _ =>
    .bind .state fun _ => .bind (leaves_withdrawEach _ _ _) fun _ => .bind .state fun _ =>
    .forM fun _ => leaves_withdrawWaits _ _ _ _

theorem leaves_noLongerWaiting (task : Task) (to_ : TaskState) :
    Leaves Ledger.tasks (noLongerWaiting task to_) :=
  .bind .state fun _ => .ite (.pure _) (.bind (.forM fun _ => leaves_withdrawWaits _ _ _ _)
    fun _ => .bind .state fun _ => .forM fun _ => .ite (leaves_mend _ _ _) (.pure _))

theorem leaves_afterMove (task : Task) (to_ : TaskState) :
    Leaves Ledger.tasks (afterMove task to_) :=
  .bind (.doWhen _ (.bind .state fun _ => leaves_withdrawEach _ _ _)) fun _ =>
    .bind (.doWhen _ (leaves_noLongerFailed _ _)) fun _ => .doWhen _ (leaves_noLongerWaiting _ _)

theorem leaves_setPaused (id project : Nat) (ps : List Paused) :
    Leaves Ledger.tasks (setPaused id project ps) := by
  have named (number : Int) : Leaves Ledger.tasks (taskRowNamed project number) := by
    unfold taskRowNamed
    split
    · exact leaves_taskRow _ _
    · exact .refuse _
  unfold setPaused
  split
  · exact .bind (.map _ (named _)) fun _ => leaves_setMessages _ _ _
  · exact .bind (.pure _) fun _ => leaves_setMessages _ _ _

theorem leaves_leaveOne (task : Task) (reason : String) (note : Message) :
    Leaves Ledger.tasks (leaveOne task reason note) := by
  unfold leaveOne
  split
  · exact .pure _
  · refine .ite (.pure _) (.ite ?_ ?_)
    · exact .bind (leaves_withdraw _ _) fun _ => .pure _
    · exact .bind (leaves_setPaused _ _ _) fun _ => .pure _

theorem leaves_keepMoved (task : Task) : Leaves Ledger.tasks (keepMoved task) := by
  refine .bind .state fun s => .forM fun x => ?_
  obtain ⟨id, said⟩ := x
  dsimp only
  split
  · exact leaves_setMessages _ _ _
  · exact .pure _

theorem leaves_leavePauseNotes (task : Task) (why : String) (afterwards : Afterwards) :
    Leaves Ledger.tasks (leavePauseNotes task why afterwards) := by
  refine .bind (.doWhen _ (leaves_keepMoved _)) fun _ => .bind .state fun _ =>
    .bind (leaves_setMessages _ _ _) fun _ => .bind .state fun _ =>
    .bind (.mapM fun _ => leaves_leaveOne _ _ _) fun _ => ?_
  exact .bind (leaves_participantRow _) fun _ =>
    .forM fun _ => .bind (leaves_sendNote _ _ _ _) fun _ => .pure _

end ConsensFlow
