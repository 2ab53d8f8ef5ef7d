/-
  File:      ConsensFlow/Pausing.lean
  Subject:   A TASK STOPPED WITHOUT ENDING (`tasks/pausing.rs`, `messages/taken_back.rs`): paused
             by the chief or the human, held by the daemon, paused with its project, and the
             ways it goes on.

  * `pause` -- the move to paused: the stop it asks, the doors it shuts, the claims it ends;
  * `pauseTaskAs`, `holdTask`, `holdForContext`, `clearHold`, `unmarkPause` -- who stops a task;
  * **`resumeTask`** -- into its window, or back on the board when that ended;
  * `goOnInWindow`, `relaunchStalled` -- the two ways a window goes on with no words of a resume;
  * **`resumeWithProject`** -- the human's Resume of the project: what its suspension paused is at
    work again, but in windows that hold several (`leaveSeveralPaused`);
  * `workWhileResumed`, `restWhileResumed`, `pauseAgain` -- the words of a resume that wait.
-/
import ConsensFlow.Editing
import ConsensFlow.Lib.Leaves

namespace ConsensFlow

open Lib Lib.Text Txn

/-! ## 1. A message taken back -/

/-- Whether `a` was delivered no later than `b`, as SQLite orders the column. -/
def Message.deliveredBefore (a b : Message) : Bool :=
  match a.deliveredAt, b.deliveredAt with
  | none, _ => true
  | some _, none => false
  | some x, some y => decide (x ≤ y)

/-- `last_pasted`: the message last pasted into a window about a task, and proved by the window's
    record. -/
def Ledger.lastPasted (s : Ledger) (window task : Nat) : Option Message :=
  (s.messages.rows.filter fun m => m.task == some task && m.recipient == window &&
    (m.kind == .task || m.kind == .answer || m.told) && m.state == .delivered &&
    m.carriedBy.isNone).foldl
      (fun last m => if last.all fun l => l.deliveredBefore m then some m else last) none

/-- A message delivered, in its queue again: what was handed is marked so still. -/
def Message.backInQueue (m : Message) : Message :=
  { m.to .queued with
    deliveredAt := none, receipt := none, handedAt := m.handedAt.or m.deliveredAt }

/-- The handle of the assignee of the task a message is about. -/
def assigneeAbout : Option Task → DeskM (Option String)
  | some task => assigneeOf task
  | none => pure none

theorem assigneeAbout_ok {t : Option Task} {o : Option String} {s s' : Ledger}
    (h : (assigneeAbout t).run s = .ok (o, s')) : s = s' := by
  cases t with
  | some t => exact assigneeOf_ok h
  | none => exact (run_pure_ok.mp h).2

/-- A task message, or told words, delivered, is in its queue again with what its paste carried:
    the message, and the ids of what is kept again. -/
def takenBack (id : Nat) (reason : String) : LooseM (Message × List Nat) := do
  let m ← requireMessage id .delivered
  let task ← messageTask id
  let assignee ← assigneeAbout task
  let s ← state
  require ((m.kind == .task || s.isTold m assignee) && m.carriedBy.isNone)
    (.refused "invalid-transition" s!"message {id} is not a task message of its own" 409)
  setLooselyIn .delivered (fun x => x.id == id) fun x =>
    { x.backInQueue with reason := some reason }
  -- delivered only because its paste arrived after it was withdrawn: withdrawn again
  setMessagesIn .delivered
    (fun x => x.carriedBy == some id && x.receipt.any fun r => r.cancelled.isSome)
    fun x => { x.to .cancelled with deliveredAt := none, receipt := none }
  let s ← state
  let kept := (s.messages.rows.filter fun x =>
    x.carriedBy == some id && x.state == .delivered).map (·.id)
  setLooselyIn .delivered (fun x => x.carriedBy == some id) Message.backInQueue
  pure (m, kept)

/-- What taking back message `id` leaves of a row. -/
inductive TakenBack (id : Nat) (x x' : Message) : Prop where
  | itself (it : x.id = id) (alone : x'.carriedBy = none) (queued : x'.state = .queued)
  | late (rides : x.carriedBy = some id) (arrived : x.state = .delivered)
      (late : x.late = true) (withdrawn : x'.state = .cancelled)
  | kept (rides : x.carriedBy = some id) (arrived : x.state = .delivered)
      (late : x.late = false) (queued : x'.state = .queued)
  | other (notIt : x.id ≠ id) (rides : x.carriedBy = some id → x.state ≠ .delivered)
      (same : x' = x)

section TakenBack

variable {s s' : Ledger} {id : Nat} {m x : Message} {reason : String} {r : Message × List Nat}

/-- The three statements of taking back, on one row. -/
def backItself (id : Nat) (reason : String) (x : Message) : Message :=
  Table.altered (fun x => x.state == .delivered && x.id == id)
    (fun x => { x.backInQueue with reason := some reason }) x

def backLate (id : Nat) (x : Message) : Message :=
  Table.altered (fun x => x.state == .delivered &&
      (x.carriedBy == some id && x.receipt.any fun r => r.cancelled.isSome))
    (fun x => { x.to .cancelled with deliveredAt := none, receipt := none }) x

def backKept (id : Nat) (x : Message) : Message :=
  Table.altered (fun x => x.state == .delivered && x.carriedBy == some id) Message.backInQueue x

theorem takenBack_row (h : (takenBack id reason).run s = .ok (r, s')) :
    (∃ m ∈ s.messages.rows, m.id = id ∧ m.state = .delivered ∧ m.carriedBy = none) ∧
      ∀ x' ∈ s'.messages.rows, ∃ x ∈ s.messages.rows,
        x' = backKept id (backLate id (backItself id reason x)) := by
  obtain ⟨m, s1, h1, h⟩ := run_bind_ok.mp h
  obtain ⟨rfl, hm, hid, arrived⟩ := requireMessage_ok h1
  obtain ⟨t, s2, h2, h⟩ := run_bind_ok.mp h
  obtain ⟨rfl, -⟩ := messageTask_ok h2
  obtain ⟨assignee, s3, h3, h⟩ := run_bind_ok.mp h
  obtain rfl := assigneeAbout_ok h3
  obtain ⟨s4, s5, h4, h⟩ := run_bind_ok.mp h
  obtain ⟨rfl, rfl⟩ := run_state_ok.mp h4
  obtain ⟨u5, s5, h5, h⟩ := run_bind_ok.mp h
  obtain ⟨own, rfl⟩ := run_require_ok.mp h5
  obtain ⟨u6, s6, h6, h⟩ := run_bind_ok.mp h
  obtain ⟨u7, s7, h7, h⟩ := run_bind_ok.mp h
  obtain ⟨s8, s9, h8, h⟩ := run_bind_ok.mp h
  obtain ⟨rfl, rfl⟩ := run_state_ok.mp h8
  obtain ⟨u10, s10, h10, h⟩ := run_bind_ok.mp h
  obtain ⟨-, rfl⟩ := run_pure_ok.mp h
  have alone : m.carriedBy = none :=
    Option.isNone_iff_eq_none.mp (Bool.and_eq_true_iff.mp own).2
  refine ⟨⟨m, hm, hid, arrived, alone⟩, fun x' hx' => ?_⟩
  rw [setLooselyIn_ok h10] at hx'
  obtain ⟨x2, hx2, rfl⟩ := Table.mem_alter.mp hx'
  rw [run_lifted] at h7
  rw [setMessagesIn_ok h7] at hx2
  obtain ⟨x1, hx1, rfl⟩ := Table.mem_alter.mp hx2
  rw [setLooselyIn_ok h6] at hx1
  obtain ⟨x, hx, rfl⟩ := Table.mem_alter.mp hx1
  exact ⟨x, hx, rfl⟩

/-- Each row as the three statements leave it, where the message was delivered on its own. -/
theorem takenBack_of (own : x.id = id → x.state = .delivered ∧ x.carriedBy = none) {x' : Message}
    (e : x' = backKept id (backLate id (backItself id reason x))) :
    x'.id = x.id ∧ Lodged x x' ∧ TakenBack id x x' := by
  have still (y : Message) (hy : y.state ≠ .delivered) : backKept id (backLate id y) = y := by
    have no (q : Bool) : (y.state == .delivered && q) = false := by
      rw [beq_eq_false_iff_ne.mpr hy, Bool.false_and]
    have late : backLate id y = y := altered_not (no _)
    rw [late]
    exact altered_not (no _)
  by_cases it : x.id = id
  · obtain ⟨arrived, alone⟩ := own it
    have e1 : backItself id reason x =
        Keyed.rekey x.id { x.backInQueue with reason := some reason } :=
      altered_of (by simp [arrived, it])
    rw [e1, still _ (fun k => by cases k)] at e
    subst e
    exact ⟨rfl, ⟨rfl, .inl rfl⟩, .itself it alone rfl⟩
  · have e1 : backItself id reason x = x := altered_not (by simp [it])
    rw [e1] at e
    by_cases arrived : x.state = .delivered
    · by_cases rides : x.carriedBy = some id
      · cases late : x.late with
        | true =>
          have e2 : backLate id x =
              Keyed.rekey x.id { x.to .cancelled with deliveredAt := none, receipt := none } :=
            altered_of (by simp [arrived, rides, ← late, Message.late])
          have e3 : backKept id (backLate id x) = backLate id x := by
            rw [e2]
            exact altered_not rfl
          rw [e3, e2] at e
          subst e
          exact ⟨rfl, ⟨rfl, .inl rfl⟩, .late rides arrived late rfl⟩
        | false =>
          have e2 : backLate id x = x := altered_not (by
            simp only [arrived, rides, beq_self_eq_true, Bool.true_and]
            exact late)
          have e3 : backKept id x = Keyed.rekey x.id x.backInQueue :=
            altered_of (by simp [arrived, rides])
          rw [e2, e3] at e
          subst e
          exact ⟨rfl, ⟨rfl, .inl rfl⟩, .kept rides arrived late rfl⟩
      · have e2 : backLate id x = x := altered_not (by simp [rides])
        have e3 : backKept id x = x := altered_not (by simp [rides])
        rw [e2, e3] at e
        subst e
        exact ⟨rfl, ⟨rfl, .inl rfl⟩, .other it (fun k => absurd k rides) rfl⟩
    · rw [still x arrived] at e
      subst e
      exact ⟨rfl, ⟨rfl, .inl rfl⟩, .other it (fun _ => arrived) rfl⟩

namespace TakenBack

variable {x' c c' : Message}

theorem alone (h : TakenBack id x x') (sent : x'.state = .delivering) :
    x.state = .delivering ∨ x'.carriedBy = none := by
  cases h with
  | itself _ alone _ => exact .inr alone
  | late _ _ _ withdrawn =>
    rw [withdrawn] at sent
    cases sent
  | kept _ _ _ queued =>
    rw [queued] at sent
    cases sent
  | other _ _ same => exact .inl (same ▸ sent)

theorem ended (h : TakenBack id x x') (lodged : Lodged x x') (rides : x'.carriedBy ≠ none)
    (k : x.Over) : x'.Over := by
  cases h with
  | itself _ alone _ => exact absurd alone rides
  | late _ _ _ withdrawn =>
    refine ⟨?_, ?_⟩
    · rw [show x'.kind = x.kind from congrArg Stamp.kind lodged.stamp]
      exact k.1
    · rw [withdrawn]
      trivial
  | kept _ arrived late _ =>
    have was := k.2
    rw [arrived, late] at was
    cases was
  | other _ _ same => exact same ▸ k

/-- A carrier stays settled, but for the one taken back. -/
theorem settles (h : TakenBack id c c') (lodged : Lodged c c') (notIt : c.id ≠ id)
    (k : c.Settled) : c'.Settled := by
  cases h with
  | itself it _ _ => exact absurd it notIt
  | late rides arrived late withdrawn =>
    have own : c.Over := k.own.resolve_left (by rw [rides]; exact Option.some_ne_none id)
    refine ⟨by rw [withdrawn]; exact fun p => p, .inr ⟨?_, by rw [withdrawn]; trivial⟩⟩
    rw [show c'.kind = c.kind from congrArg Stamp.kind lodged.stamp]
    exact own.1
  | kept rides arrived late _ =>
    have own : c.Over := k.own.resolve_left (by rw [rides]; exact Option.some_ne_none id)
    have was := own.2
    rw [arrived, late] at was
    cases was
  | other _ _ same => exact same ▸ k

/-- What rides in the paste taken back waits, or is over; what rides elsewhere lies as it did. -/
theorem lies {human : Prop} (h : TakenBack id x x') (hc : TakenBack id c c')
    (same : x'.carriedBy = x.carriedBy) (rode : x.carriedBy = some c.id) (lodged : Lodged c c')
    (k : x.Lies c.Settled human) : x'.Lies c'.Settled human := by
  have waits {st : MessageState} (e : x'.state = st) (hst : st = .queued ∨ st = .cancelled) :
      x'.Lies c'.Settled human := by
    unfold Message.Lies
    rw [e]
    rcases hst with rfl | rfl <;> trivial
  cases h with
  | itself _ _ queued => exact waits queued (.inl rfl)
  | late _ _ _ withdrawn => exact waits withdrawn (.inr rfl)
  | kept _ _ _ queued => exact waits queued (.inl rfl)
  | other _ rides e =>
    subst e
    by_cases arrived : x'.state = .delivered
    · have notIt : c.id ≠ id := fun e => rides (e ▸ rode) arrived
      exact k.imp (hc.settles lodged notIt) fun p => p
    · unfold Message.Lies at k ⊢
      cases hs : x'.state <;> rw [hs] at k <;> first | exact k | exact absurd hs arrived

end TakenBack

/-- **What is over for a paste taken back stays over**, and what arrived with it waits again with
    it. -/
theorem takenBack_tight (h : (takenBack id reason).run s = .ok (r, s')) : Tight .none s s' := by
  obtain ⟨⟨m, hm, it, arrived, alone⟩, rows⟩ := takenBack_row h
  have k : Kept { loose := True } s s' := ((takenBack id reason).within h).toKept
  have back : ∀ x' ∈ s'.messages.rows, ∃ x ∈ s.messages.rows, x'.id = x.id ∧ Lodged x x' ∧
      TakenBack id x x' := by
    intro x' hx'
    obtain ⟨x, hx, e⟩ := rows x' hx'
    refine ⟨x, hx, takenBack_of (fun same => ?_) e⟩
    rw [Table.eq_of_key hx hm (same.trans it.symm)]
    exact ⟨arrived, alone⟩
  refine ⟨fun x hx x' hx' e c hc _ _ ended => ?_, fun hands _ riding =>
    riding_of_rows k.ids back (fun x x' h => h.alone) (fun x x' c c' hx hc same rode e lodged r => ?_)
      riding⟩
  · obtain ⟨x0, hx0, e0, lodged, taken⟩ := back x' hx'
    have same : x0 = x := Table.eq_of_key hx0 hx (e0.symm.trans e)
    subst same
    exact taken.ended lodged (by rw [hc]; exact Option.some_ne_none c) ended
  · refine (hx.lies hc same rode lodged (r.lies.imp (fun p => ?_) fun p => p)).imp .inl (k.human _)
    exact p.resolve_right fun e => by cases e

end TakenBack

/-- `take_back`: a task message, or told words, that its window took back out of its
    conversation is kept for the window again, with what its paste carried. -/
def takeBack (id : Nat) (reason : String) : DeskM Message := do
  requireText reason "reason" 1000
  inWrite do
    let (m, kept) ← tighten (takenBack id reason) takenBack_tight
    log m.project (.other "delivery.taken-back" (some id))
    withdrawStaleAmong kept
    adopt id
    knownMessage id

/-! ## 2. The move to paused -/

/-- Whether a move to paused asks the task's window to stop. -/
inductive Stops where
  | asked | notAsked
  deriving DecidableEq, Repr

/-- `shut_doors`: the doors of the questions a window asked on a task are shut. -/
def shutDoors (task : Task) (window : Nat) : DeskM Unit := do
  let row ← taskById task.id
  setMessages (fun m => m.task == some task.id && m.sender == some window && m.kind == .question &&
      m.doorClosedAt.isNone)
    fun m => { m with doorClosedAt := some row.updatedAt }

/-- A claimed answer is the ledger's again. -/
def unclaimed (project id : Nat) : DeskM Unit := do
  setMessage id fun m => { m with claimedAt := none }
  log project (.other "delivery.unclaimed" (some id))

/-- What a door claimed and nobody acknowledged is the ledger's again. -/
def unclaim (task : Task) (window : Nat) : DeskM Unit := do
  let s ← state
  let claimed := s.messages.rows.filter fun m => m.task == some task.id && m.recipient == window &&
    m.kind == .answer && m.claimedAt.isSome
  claimed.forM fun answer => unclaimed task.project answer.id

/-- Whether a project is suspended. -/
def Ledger.isSuspended (s : Ledger) (project : Nat) : Bool :=
  (s.projects.get? project).any fun p => p.state == .suspended

/-- What a pause does to its window's questions and claims. -/
def stopWindow (task : Task) : DeskM Unit :=
  match task.assignee with
  | none => pure ()
  | some window => do
    shutDoors task window
    unclaim task window

/-- `pause`: the move to paused. One that asks a stop counts it; `withProject`, its project's
    suspension paused it, while the project is suspended. -/
def pause (task : Task) (detail : Detail) (withProject : Bool) (stops : Stops) : LedgerM Unit := do
  let asked := if stops = .asked then 1 else 0
  moveTask task .paused
    { detail with stop := if stops = .asked then some (task.stopSeq + 1) else none }
  updateTask task.id fun r =>
    { r with pausedAt := some r.updatedAt, stopSeq := r.stopSeq + asked }
  let s ← state
  doWhen (withProject && s.isSuspended task.project)
    (updateTask task.id fun r => { r with pausedWithProject := true })
  stopWindow task

/-! ## 3. Who stops a task -/

/-- Who made the task's pause theirs last, as the log says: its move to paused, or a takeover. -/
def What.pausedBy (number : Nat) : What → Option (Option String)
  | .taskPauseTaken n by_ => if n = number then some (some by_) else none
  | .taskState n _ .paused d => if n = number then some d.by_ else none
  | _ => none

/-- `paused_by_consensflow`: its last move to paused named nobody, and it is not with its
    project's suspension. -/
def Ledger.pausedByConsensflow (s : Ledger) (task : Task) : Bool :=
  task.state == .paused && !((s.tasks.get? task.id).any fun r => r.pausedWithProject) &&
    ((s.events.rows.filterMap fun e =>
      if e.project == task.project then e.what.pausedBy task.number else none).getLast?) ==
        some none

/-- `take_over_pause`: the pause of a task its project's suspension paused is the chief's or the
    human's from now on. Whether there was such a pause. -/
def takeOverPause (task : Task) (by_ : String) : LedgerM Bool := do
  let s ← state
  let taken := (s.tasks.get? task.id).any fun r => r.state == .paused && r.pausedWithProject
  doWhen taken (do
    updateTask task.id fun r => { r with pausedWithProject := false }
    log task.project (.taskPauseTaken task.number by_))
  pure taken

/-- The states a pause stops a task in. -/
def TaskState.pausable : TaskState → Bool
  | opened | queued | working | waiting => true
  | _ => false

/-- The chief's pause takes back what the chief wrote for the window that had not reached it. -/
def takeBackUnsent (task : Task) (author : Option Participant) : DeskM Unit :=
  match author.filter fun a => a.role == .chief, task.assignee with
  | some author, some window => do
    setMessages (fun m => m.task == some task.id && m.recipient == window &&
        m.sender == some author.id && (m.kind == .task || m.kind == .note) &&
        (m.state == .queued || m.state == .gated))
      fun m => { m.to .cancelled with reason := some s!"withdrawn by @{author.handle}'s pause" }
    releaseCarried task.id
  | _, _ => pure ()

def ownWorkPaused (number : Nat) : LedgerError :=
  .refused "own-work" s!"T-{number} is the chief's own: finish or cancel it" 409

/-- The chief's own work is not paused. -/
def requireNotChiefs {R : Ledger → Ledger → Prop} [Frame R] (task : Task) : LedgerTxn R Unit :=
  match task.assignee with
  | none => pure ()
  | some id => do
    let p ← participantRow id
    require (p.role != .chief) (ownWorkPaused task.number)

/-- A handle's participant, where one is named. -/
def authorOf {R : Ledger → Ledger → Prop} [Frame R] (project : Nat) :
    Option String → LedgerTxn R (Option Participant)
  | some handle => some <$> participantByHandle project handle
  | none => pure none

/-- What a pause is for, where that is said. -/
def requireBecause {R : Ledger → Ledger → Prop} [Frame R] : Option String → LedgerTxn R Unit
  | some because => requireText because "because" 1000
  | none => pure ()

/-- Whether somebody named takes over the pause a suspension made. -/
def takenOver (task : Task) : Option Participant → LedgerM Bool
  | some author => takeOverPause task author.handle
  | none => pure false

/-- `pause_task_as`: a pause by `by_` (none: ConsensFlow). -/
def pauseTaskAs (project number : Nat) (by_ because : Option String) (withProject : Bool) :
    LedgerM Task := do
  requireBecause because
  inWrite do
    let author ← authorOf project by_
    let task ← taskRow project number
    let taken ← takenOver task author
    let s ← state
    let automatic := author.isSome && !taken && s.pausedByConsensflow task
    doWhen (!taken && !automatic) (requireTaskState task TaskState.pausable "pause")
    requireNotChiefs task
    takeBackUnsent task author
    doWhen (!taken) (pause task { by_, reason := because } withProject .asked)
    taskById task.id

/-- `pause_task`. -/
def pauseTask (project number : Nat) (by_ because : Option String) : LedgerM Task :=
  pauseTaskAs project number by_ because false

/-- Which stop a pause is: the task, and how many its pauses asked. -/
structure Stop where
  task : Nat
  number : Nat
  seq : Nat
  deriving DecidableEq, Repr

/-- `pause_with_project`. -/
def pauseWithProject (project number : Nat) (because : String) : LedgerM Stop := do
  let task ← pauseTaskAs project number none (some because) true
  let row ← taskRow project number
  pure { task := task.id, number, seq := row.stopSeq }

/-- `unmark_pause`: the window of a task paused with its project ended by itself after all. -/
def unmarkPause (project number stop : Nat) : LedgerM Unit := inWrite do
  let task ← taskRow project number
  doWhen (task.state == .paused && task.stopSeq == stop)
    (updateTask task.id fun r => { r with pausedWithProject := false })

/-- `hold_task`: the daemon holds a task while its member is out of quota, until a time. -/
def holdTask (project number : Nat) (until_ because : String) : LedgerM Task := do
  requireText because "because" 1000
  require (parseTime until_).isSome (.wrong "invalid-until" "a hold names when it ends")
  inWrite do
    let task ← taskRow project number
    requireTaskState task TaskState.held "hold"
    pause task { reason := some because } false .notAsked
    updateTask task.id fun r => { r with heldUntil := some until_ }
    taskById task.id

/-- `hold_for_context`: a follow-up that cannot go on in the conversation of the task it
    follows. -/
def holdForContext (project number : Nat) (because : String) : LedgerM Task := do
  requireText because "because" 1000
  inWrite do
    let task ← taskRow project number
    requireTaskState task (· == .queued) "hold"
    pause task { reason := some because, context := true } false .notAsked
    let requester ← participantRow task.requester
    let _ ← noteHeldForContext project requester.handle number because
    taskById task.id

/-- `clear_hold`: the daemon ends a task's hold without resuming it. -/
def clearHold (project number : Nat) (because : String) : LedgerM Task := do
  requireText because "because" 1000
  inWrite do
    let task ← taskRow project number
    requireTaskState task (· == .paused) "clear the hold of"
    let t ← now
    updateTask task.id fun r => { r with heldUntil := none, updatedAt := t }
    log project (.other "task.hold-cleared" none)
    taskById task.id

/-! ## 4. A window goes on -/

/-- `was_relaunched`: whether a message was relaunched once already. -/
def Ledger.wasRelaunched (s : Ledger) (project message : Nat) : Bool :=
  s.events.rows.any fun e => e.project == project &&
    match e.what with
    | .taskRelaunched _ m => m == message
    | _ => false

def notRelaunched (why : String) : LedgerError := .refused "not-relaunched" why 409

/-- The conditions of a relaunch, each the stall's. -/
def requireStalled {R : Ledger → Ledger → Prop} [Frame R] (project number participant message
    seq : Nat) (task : Task) : LedgerTxn R Unit := do
  require (task.state == .paused && task.stopSeq == seq)
    (notRelaunched s!"T-{number} is {task.state.word} at stop {task.stopSeq}, not paused by the stall that asked stop {seq}")
  require (task.assignee == some participant)
    (notRelaunched s!"T-{number} is held by another window now")
  let s ← state
  require (s.pausedByConsensflow task) (notRelaunched s!"T-{number} was paused by someone since")
  require task.heldUntil.isNone (notRelaunched s!"T-{number} is held, and goes on by itself")
  require ((s.lastPasted participant task.id).any fun m => m.id == message && m.kind == .task)
    (notRelaunched
      s!"m-{message} is not the latest of T-{number}'s messages its window was given")
  require (!s.wasRelaunched project message)
    (notRelaunched s!"m-{message} was relaunched once already")

section Unbegun

/-- Each message is in the state it was in, or withdrawn. -/
def Ledger.Withdraws (s s' : Ledger) : Prop :=
  ∀ x' ∈ s'.messages.rows, ∃ x ∈ s.messages.rows, x'.id = x.id ∧
    (x'.state = x.state ∨ x'.state = .cancelled)

theorem Ledger.Withdraws.of_eq {s s' : Ledger} (h : s'.messages = s.messages) : s.Withdraws s' :=
  fun x hx => ⟨x, h ▸ hx, rfl, .inl rfl⟩

instance : Frame Ledger.Withdraws where
  refl _ := .of_eq rfl
  trans h k x hx := by
    obtain ⟨y, hy, ey, sy⟩ := k x hx
    obtain ⟨z, hz, ez, sz⟩ := h y hy
    refine ⟨z, hz, ey.trans ez, sy.elim (fun e => ?_) .inr⟩
    exact sz.imp e.trans e.trans

theorem Ledger.Withdraws.altered {s : Ledger} {p : Message → Bool} {f : Message → Message}
    (each : ∀ m, (f m).state = m.state ∨ (f m).state = .cancelled) :
    s.Withdraws (s.withMessages p f) := by
  intro x' hx'
  obtain ⟨x, hx, rfl⟩ := Table.mem_alter.mp hx'
  refine ⟨x, hx, altered_message_id p f x, ?_⟩
  unfold Table.altered
  split
  · exact each x
  · exact .inl rfl

theorem withdraws_log (project : Nat) (what : What) (h : what.Quiet) :
    Respects Ledger.Withdraws (log project what h) :=
  .bind (.bind .state fun _ => .bind (.write fun _ => .of_eq rfl) fun _ => .pure _) fun _ =>
    .write fun _ => .of_eq rfl

theorem withdraws_withdraw (id : Nat) (reason : String) :
    Respects Ledger.Withdraws (withdraw id reason) := by
  intro s u s' h
  simp only [withdraw, setMessage, setMessages, run_write_ok] at h
  subst h
  exact .altered fun _ => .inr rfl

theorem withdraws_withdrawStaleAmong (ids : List Nat) :
    Respects Ledger.Withdraws (withdrawStaleAmong ids) := by
  refine .forM fun id => .bind .state fun s => ?_
  split
  · exact .pure _
  · refine .bind (.bind .state fun s => ?_) fun _ => .pure _
    split
    · exact .pure _
    · exact .bind (.forM fun i => .bind (withdraws_withdraw i _) fun _ =>
        withdraws_log _ _ ⟨rfl, rfl⟩) fun _ => .pure _

theorem withdraws_adopt (id : Nat) : Respects Ledger.Withdraws (adopt id) := by
  refine .write fun s => ?_
  unfold Ledger.adopted
  split
  · exact .of_eq rfl
  · next m c _ =>
    have put {s : Ledger} {p : Message → Bool} :
        s.Withdraws (s.withMessages p fun x => { x with carriedBy := some c.id }) :=
      .altered fun _ => .inl rfl
    exact Frame.trans (R := Ledger.Withdraws) put put

variable {s s' : Ledger} {id : Nat} {reason item : String} {m : Message} {u : Unit}

/-- What is taken back is delivered no more. -/
theorem takeBack_undelivered (h : (takeBack id reason).run s = .ok (m, s')) :
    ∀ x ∈ s'.messages.rows, x.id = id → x.state ≠ .delivered := by
  obtain ⟨u1, s1, h1, h⟩ := run_bind_ok.mp h
  obtain rfl := requireText_ok h1
  obtain ⟨r, s2, h2, h⟩ := run_bind_ok.mp h
  obtain ⟨u3, s3, h3, h⟩ := run_bind_ok.mp h
  obtain ⟨u4, s4, h4, h⟩ := run_bind_ok.mp h
  obtain ⟨u5, s5, h5, h⟩ := run_bind_ok.mp h
  obtain ⟨rfl, -⟩ := knownMessage_ok h
  have later : s2.Withdraws s5 := Frame.trans
    (Frame.trans (withdraws_log _ _ ⟨rfl, rfl⟩ _ _ _ h3) (withdraws_withdrawStaleAmong _ _ _ _ h4))
    (withdraws_adopt _ _ _ _ h5)
  intro x hx it arrived
  obtain ⟨x2, hx2, e2, st2⟩ := later x hx
  have arrived2 : x2.state = .delivered := by
    rcases st2 with e | e
    · exact e.symm.trans arrived
    · rw [e] at arrived
      cases arrived
  obtain ⟨⟨m0, hm0, it0, arrived0, alone0⟩, rows⟩ := takenBack_row h2
  obtain ⟨x0, hx0, e0⟩ := rows x2 hx2
  have own (same : x0.id = id) : x0 = m0 := Table.eq_of_key hx0 hm0 (same.trans it0.symm)
  obtain ⟨ex, -, taken⟩ := takenBack_of (fun same => own same ▸ ⟨arrived0, alone0⟩) e0
  have same : x0.id = id := ex.symm.trans (e2.symm.trans it)
  cases taken with
  | itself _ _ queued =>
    rw [queued] at arrived2
    cases arrived2
  | late _ _ _ withdrawn =>
    rw [withdrawn] at arrived2
    cases arrived2
  | kept _ _ _ queued =>
    rw [queued] at arrived2
    cases arrived2
  | other notIt _ _ => exact notIt same

/-- Received again only by a copy after the one that never began. -/
def Message.unbegunOn (item : String) (m : Message) : Message :=
  { m with receipt := some { proof := s!"\x7b\"before\":{quoted item}\x7d" } }

theorem unbegun_spared (message : Nat) (item : String) (m : Message)
    (_ : (m.id == message) = true) : Spared m (m.unbegunOn item) :=
  ⟨⟨rfl, .inl rfl⟩, rfl, fun _ h => ⟨h.state, h.alone⟩, fun _ => rfl⟩

/-- A message taken back that its window began no turn on. -/
def takeBackUnbegun (message : Nat) (item : String) : LooseM Unit := do
  let _ ← takeBack message "its window began no turn on it, and ConsensFlow relaunched the window"
  setLoosely (fun m => m.id == message) (Message.unbegunOn item) (unbegun_spared message item)

theorem takeBackUnbegun_tight (h : (takeBackUnbegun id item).run s = .ok (u, s')) :
    Tight .none s s' := by
  obtain ⟨m, s1, h1, h2⟩ := run_bind_ok.mp h
  have k1 : Kept .none s s1 := (lifted_within h1).toKept
  rw [run_lifted] at h1
  have undelivered := takeBack_undelivered h1
  obtain rfl := setLoosely_ok h2
  have t2 : Tight .none s1 (s1.withMessages (fun m => m.id == id) (Message.unbegunOn item)) :=
    tight_withMessages (fun _ _ _ => ⟨rfl, .inl rfl⟩) fun x hx it =>
      .provedElse rfl rfl (undelivered x hx (beq_iff_eq.mp it)) rfl
  have k2 := desk_withMessages (x := .none) s1 _ _ (unbegun_spared id item) fun _ => t2
  exact (k1.trans k2.toKept).tight fun k => k

end Unbegun

/-- `relaunch_stalled`: ConsensFlow relaunches the window that began no turn on a message, which
    is given it once more. -/
def relaunchStalled (project number participant message seq : Nat) (item : String) :
    LedgerM Task := inWrite do
  let task ← taskRow project number
  requireStalled project number participant message seq task
  leavePauseNotes task "resumed" .movesOn
  tighten (takeBackUnbegun message item) takeBackUnbegun_tight
  let task ← taskRow project number
  moveTask task .queued
    { message := some message
      reason := some s!"its window began no turn on m-{message}, and ConsensFlow relaunched it" }
  log project (.taskRelaunched number message)
  taskById task.id

/-- The refusal of a task that does not go on in its window by itself. -/
def notGoingOn (number : Nat) : LedgerError :=
  .refused "not-held"
    s!"T-{number} is neither held nor waiting for the bare words that resume it" 409

/-- What the daemon says when it resumes a hold. -/
def bareResume : String := s!"Resumed: {resumeWords}"

/-- The task messages for a window not yet pasted, on their own. -/
def Ledger.wordsWaiting (s : Ledger) (task window : Nat) : List Message :=
  s.messages.rows.filter fun m => m.task == some task && m.recipient == window &&
    m.kind == .task && m.carriedBy.isNone &&
    (m.state == .queued || m.state == .gated || m.state == .delivering)

/-- The daemon's bare resume, which carries nothing. -/
def Ledger.isBare (s : Ledger) (m : Message) : Bool :=
  m.body == bareResume && m.sender.isNone &&
    !(s.messages.rows.any fun c => c.carriedBy == some m.id)

/-- What withdraws the bare words of a resume that its window did not wait for. -/
def withdrawBare (number : Nat) (task : Task) (window : Nat) : DeskM Unit := do
  let s ← state
  let words := s.wordsWaiting task.id window
  require (!words.isEmpty && words.all fun m => m.state == .queued && s.isBare m)
    (notGoingOn number)
  words.forM fun m => do
    let _ ← cancelMessage m.id "its window went on by itself"
    pure ()
  tellGoesOn task

/-- `go_on_in_window`: a task its window went on with by itself. -/
def goOnInWindow (project number : Nat) : LedgerM Task := inWrite do
  let task ← taskRow project number
  let window ← found task.assignee (notGoingOn number)
  if task.state = .paused && task.heldUntil.isSome then do
    leavePauseNotes task "its window went on by itself" .movesOn
    moveTask task .queued { reason := some "its window went on by itself" }
    tellGoesOn task
    reconcile task.id
    taskById task.id
  else do
    require (task.state == .queued) (notGoingOn number)
    withdrawBare number task window
    reconcile task.id
    taskById task.id

/-- Whether the log says that message `m` resumed task `number`. -/
def Ledger.resumedBy (s : Ledger) (project number message : Nat) : Bool :=
  s.events.rows.any fun e => e.project == project &&
    match e.what with
    | .taskState n .paused .queued d => n == number && d.message == some message
    | _ => false

/-- `resume_words`: the words that resumed a task, still waiting for its window. -/
def Ledger.resumeWordsOf (s : Ledger) (task : Task) : Option Message :=
  task.assignee.bind fun window =>
    (s.messages.rows.filter fun m => m.task == some task.id && m.recipient == window &&
      m.kind == .task && (m.state == .queued || m.state == .gated || m.state == .delivering) &&
      !s.isBare m && s.resumedBy task.project task.number m.id).getLast?

/-- `work_while_resumed`: a resumed task whose window is at work on it reads working. -/
def workWhileResumed (project number : Nat) : LedgerM Task := inWrite do
  let task ← taskRow project number
  let s ← state
  let words ← found
    ((if task.state = .queued then s.resumeWordsOf task else none).filter fun m =>
      m.state != .delivering)
    (.refused "not-resumed" s!"T-{number} is not waiting for the words that resume it" 409)
  moveTask task .working
    { reason := some s!"its window is at work on it; m-{words.id}, the words that resumed it, wait for its rest" }
  reconcile task.id
  taskById task.id

/-- `rest_while_resumed`: no window is at work on the task any more, and its words wait still. -/
def restWhileResumed (project number : Nat) (why : String) : LedgerM Task := do
  requireText why "why" 1000
  inWrite do
    let task ← taskRow project number
    let s ← state
    let words ← found
      ((if task.state.active then s.resumeWordsOf task else none).filter fun m =>
        m.state != .delivering)
      (.refused "not-resumed" s!"T-{number} is not working with the words that resume it waiting" 409)
    moveTask task .queued
      { reason := some s!"{why}, and m-{words.id}, the words that resumed it, have not gone in" }
    taskById task.id

/-- `tell_it_goes_on`. -/
def tellItGoesOn (project number : Nat) : DeskM Unit := inWrite do
  let task ← taskRow project number
  tellGoesOn task

/-! ## 5. Resumed -/

/-- Back on the board: the session that had the task ended. -/
def resumeOnBoard (project number : Nat) (author : Option Participant) (by_ : Option String)
    (body : String) (task : Task) (assignee : Participant) : LedgerM TaskMoved := do
  require task.pool.isSome
    (.refused "session-ended"
      s!"the window that had T-{number} has ended: cancel it and open the work for its tier" 409)
  let carried ← transfer task assignee (deliveryBody task)
  let t ← now
  updateTask task.id fun r =>
    { r with assignee := none, state := .opened
             body := s!"{task.body}{carried.kept}\n\nResumed after a pause, in a fresh window (the one that had it ended; check the working tree for partial changes): {body}"
             updatedAt := t, pausedWithProject := false }
  log project (.taskState number .paused .opened { by_ })
  let requester ← participantRow task.requester
  doWhen (!carried.gated.isEmpty) (do
    let whom := (author.map (·.handle)).getD requester.handle
    let _ ← sendNote project whom (some number)
      s!"Withdrawn with it, still waiting for the human: {mList (carried.gated.map Int.ofNat)}."
    pure ())
  let row ← taskById task.id
  pure { task := row }

/-- Into its window: the words are a task message of their own, which carries what the window
    kept. -/
def resumeInWindow (project number : Nat) (author : Option Participant) (by_ : Option String)
    (body : String) (task : Task) (assignee : Participant) : LedgerM TaskMoved := do
  requireFree assignee (.resumed number)
  let s ← state
  let id ← queueCarrier project
    { whom := assignee.id, sender := author.map (·.id), kind := .task, task := some task.id
      body := s.carrierBody task assignee.id s!"Resumed: {body}" } task
  moveTask task .queued { by_, message := some id }
  let row ← taskById task.id
  let m ← knownMessage id
  pure { task := row, message := some m }

/-- **`resume_task`**. -/
def resumeTask (project number : Nat) (by_ : Option String) (body : String) :
    LedgerM TaskMoved := do
  requireText body "body" maxBody
  inWrite do
    let author ← authorOf project by_
    let task ← taskRow project number
    requireTaskState task (· == .paused) "resume"
    leavePauseNotes task "resumed" .movesOn
    match task.assignee with
    | none => do
      let t ← now
      setTasks (fun r => r.id == task.id) fun r =>
        { r with body := s!"{task.body}\n\nResumed: {body}", updatedAt := t }
      moveTask task .opened { by_ }
      let row ← taskById task.id
      pure { task := row }
    | some id => do
      let assignee ← participantRow id
      if assignee.leftAt.isSome then resumeOnBoard project number author by_ body task assignee
      else resumeInWindow project number author by_ body task assignee

/-! ## 6. The words of a resume that never went in -/

/-- `resumed_in_vain`. -/
def resumedInVain (s : Ledger) (m : Message) (reason : String) : String :=
  let reason := " ".intercalate ((lines reason.toList).map String.ofList)
  s!"the words that resumed it, m-{m.id}, did not reach @{s.handleOf m.recipient}'s window: {reason}"

/-- A message on its way is failed for good. -/
def setFailed (m : Message) (reason : String) : DeskM Unit :=
  setMessagesIn .delivering (fun x => x.id == m.id) fun x =>
    { x.to .failed with reason := some reason }

/-- The log of a message given up. -/
def logFailed (m : Message) : DeskM Unit := log m.project (.other "delivery.failed" (some m.id))

/-- `pause_again`: the words that resume a paused task, given up before its window had them:
    whether they were such words. -/
def pauseAgain (m : Message) (task : Task) (reason : String) : LedgerM Bool := do
  let s ← state
  if m.kind != .task || !(task.state == .queued || task.state == .working) ||
      !s.resumedBy task.project task.number m.id then pure false
  else do
    setFailed m reason
    logFailed m
    releaseCarried task.id
    pause task { reason := some (resumedInVain s m reason) } false .notAsked
    pure true

/-! ## 7. The project's Resume -/

/-- The tasks on a window's hands, paused or not, by number. -/
def Ledger.inHand (s : Ledger) (window : Nat) : List Task :=
  (s.tasks.rows.filter fun t => t.assignee == some window &&
    (t.state.held || t.state == .paused)).insertionSort fun a b => a.number ≤ b.number

/-- The windows of a project that hold more than one task. -/
def Ledger.lanes (s : Ledger) (project : Nat) : List Participant :=
  s.participants.rows.filter fun p => p.project == project && p.role != .chief &&
    p.role != .human && 1 < (s.inHand p.id).length

/-- `tell_left_paused`: in the note of this Resume its requester was told in already, or in one of
    its own. -/
def tellLeftPaused (told : List (Nat × Nat)) (task : Task) (because : String) :
    DeskM (List (Nat × Nat)) := do
  let joined ← match told.find? fun t => t.1 == task.requester with
    | some (_, note) => joinPauseNote note task.number because false
    | none => pure none
  if joined.isSome then pure told
  else do
    let requester ← participantRow task.requester
    let note ← notePause task.project requester.handle task.number because false
    pure (told ++ [(task.requester, note.id)])

/-- One task of a window that holds several: whether its requester is to be told. -/
def leavePaused (project number : Nat) (because : String) (task : Task) : LedgerM Bool :=
  match task.state with
  | .paused => do
    doWhen task.pausedWithProject (do
      updateTask task.id fun r => { r with pausedWithProject := false }
      leavePauseNotes task "stays paused" .staysPaused)
    pure task.pausedWithProject
  | .queued | .working | .waiting => do
    let _ ← pauseTaskAs project number none (some because) false
    pure true
  | _ => pure false

/-- Its requester is told of a task that was left paused. -/
def tellIfLeft (left : Bool) (told : List (Nat × Nat)) (task : Task) (because : String) :
    DeskM (List (Nat × Nat)) :=
  if left then tellLeftPaused told task because else pure told

/-- The tasks of one window, each left paused. -/
def leaveLane (project : Nat) (because : String) :
    List Nat → List (Nat × Nat) → LedgerM (List (Nat × Nat))
  | [], told => pure told
  | number :: rest, told => do
    let task ← taskRow project number
    let left ← leavePaused project number because task
    let told ← tellIfLeft left told task because
    leaveLane project because rest told

def heldSeveral (handle : String) (numbers : List Nat) : String :=
  s!"@{handle}'s window held {taskNumbers numbers}, and a window is told to go on only when it held one task: resume them one at a time"

/-- The windows that hold several, each left. -/
def leaveLanes (project : Nat) : List Participant → List (Nat × Nat) → LedgerM Unit
  | [], _ => pure ()
  | lane :: rest, told => do
    let s ← state
    let numbers := (s.inHand lane.id).map (·.number)
    let told ← leaveLane project (heldSeveral lane.handle numbers) numbers told
    leaveLanes project rest told

/-- `leave_several_paused`: a window that holds more than one task comes back for none of them. -/
def leaveSeveralPaused (project : Nat) : LedgerM Unit := do
  let s ← state
  leaveLanes project (s.lanes project) []

/-- The tasks of a window that a continuation `m` may still tell it to go on with: the one it
    holds, at work. -/
def Ledger.continues (s : Ledger) (m : Message) (named : List Int) : Option Nat :=
  match named, s.inHand m.recipient with
  | [number], [t] =>
    if number = (t.number : Int) && t.state.active then some t.number else none
  | _, _ => none

/-- The continuations queued in a project that go: of several for one task, the oldest stays. -/
def Ledger.staleAtResume (s : Ledger) (project : Nat) : List Nat :=
  let queued := s.messages.rows.filter fun m =>
    m.project == project && m.ownNote && m.state == .queued
  (queued.foldl (fun (acc : List Nat × List (Nat × Nat)) m =>
    match continuationTasks m.body with
    | none => acc
    | some named =>
      match s.continues m named with
      | some n =>
        if acc.2.contains (m.recipient, n) then (acc.1 ++ [m.id], acc.2)
        else (acc.1, acc.2 ++ [(m.recipient, n)])
      | none => (acc.1 ++ [m.id], acc.2)) ([], [])).1

/-- `withdraw_stale`. -/
def withdrawStale (project : Nat) : DeskM Unit := do
  let s ← state
  withdrawEach project (s.staleAtResume project)
    "the Resume tells its window to go on with its work as it is now"

/-- The tasks the suspension of a project paused, whose windows are there still. -/
def Ledger.pausedWith (s : Ledger) (project : Nat) : List Nat :=
  (s.tasks.rows.filter fun t => t.project == project && t.state == .paused &&
    t.pausedWithProject &&
    (t.assignee.bind s.participants.get?).any fun p => p.leftAt.isNone).map (·.number)

/-- One of them is at work again. -/
def resumeOne (project number : Nat) : LedgerM Unit := do
  let task ← taskRow project number
  leavePauseNotes task "resumed" .movesOn
  moveTask task .working { reason := some "the project was resumed" }
  reconcile task.id

/-- **`resume_with_project`**. -/
def resumeWithProject (project : Nat) : LedgerM Unit := do
  leaveSeveralPaused project
  let s ← state
  (s.pausedWith project).forM (resumeOne project)
  withdrawStale project

end ConsensFlow
