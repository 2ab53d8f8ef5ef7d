/-
  File:      ConsensFlow/Writes.lean
  Subject:   `Store::write`: each call is one transaction, whatever writes it is made of.

  * `Op.work` -- what a call asks of the connection: its statements and the writes it nests;
  * `DeskOp.atOnce`, `BoardOp.atOnce` -- every call is one write, but for two: `withdraw_note`,
    whose statements are in no write, and `pause_with_project`, which reads the task once more
    after its write;
  * `Call.AllOrNothing` -- however the engine fails, the call returns with what the machine's step
    says, no write in it failed, or the rows and the log are as they were; no transaction is open
    after it;
  * **`refused_changes_nothing_iff`** -- that is so of a call exactly where these two do nothing;
  * **`Stored.reachable`** -- the connection between such calls is always in a state of the machine.
-/
import ConsensFlow.Windows

namespace ConsensFlow

open Lib Txn

/-! ## 1. The work of a call -/

/-- What a call asks of the connection. -/
def Op.work : Op → Work Ledger LedgerError Unit
  | board op => op.program.work
  | desk op => op.program.work
  | approveMessage i b => (silent (ConsensFlow.approveMessage i b)).work
  | confirmSentByHand i h r t => (silent (ConsensFlow.confirmSentByHand i h r t)).work
  | editTask p n b e => (silent (editTaskWith p n b e)).work
  | setGate p g => (silent (ConsensFlow.setGate p g)).work
  | deleteProject p => (silent (ConsensFlow.deleteProject p)).work

section Work

variable {R : Ledger → Ledger → Prop} [Frame R] {α : Type}

theorem silent_run (m : LedgerTxn R α) (s : Ledger) :
    Prod.snd <$> (silent m).run s = Prod.snd <$> m.run s := by
  show Prod.snd <$> runBind m (fun a => pure ()) s = _
  unfold runBind
  cases m.run s <;> rfl

/-- Where nothing fails, the work comes to the step. -/
theorem Op.attempt_eq (op : Op) (s : Ledger) : op.attempt s = Prod.snd <$> op.work.flat s := by
  cases op with
  | desk op => rw [work, op.program.plain]; rfl
  | board op => rw [work, op.program.plain]; rfl
  | approveMessage i b => rw [work, (silent _).plain, silent_run]; rfl
  | confirmSentByHand i h r t => rw [work, (silent _).plain, silent_run]; rfl
  | editTask p n b e => rw [work, (silent _).plain, silent_run]; rfl
  | setGate p g => rw [work, (silent _).plain, silent_run]; rfl
  | deleteProject p => rw [work, (silent _).plain, silent_run]; rfl

/-! ## 2. Calls of one write -/

theorem silent_once {m : LedgerTxn R α} {s : Ledger} (h : m.work.Once s) :
    (silent m).work.Once s := h.map _

theorem silently {m : LedgerTxn R α} (h : AtOnce m) : AtOnce (silent m) := fun s =>
  silent_once (h s)

theorem refused_once {β : Type} {m : LedgerTxn R α} {k : α → LedgerTxn R β} {s : Ledger}
    (once : m.work.Once s) (refused : ∀ a s', m.run s ≠ .ok (a, s')) :
    (m >>= k).work.Once s :=
  once.bind_refused fun a s' made => refused a s' ((m.plain s).symm.trans made)

theorem reads_requireText (value field : String) (max : Nat) :
    Reads (requireText value field max : LedgerTxn R Unit) := .require _ _

/-- Text is asked for, and then one write is made. -/
theorem afterText {value field : String} {max : Nat} {k : Unit → LedgerTxn R α}
    (h : ∀ u, AtOnce (k u)) : AtOnce (requireText value field max >>= k) :=
  .after (reads_requireText _ _ _) h

end Work

theorem send_atOnce (project : Nat) (m : Sent) (h : (m.kind != .task) = true) :
    AtOnce (send project m h) := afterText fun _ => .write

theorem cancelMessage_atOnce (id : Nat) (reason : String) : AtOnce (cancelMessage id reason) :=
  afterText fun _ => .write

theorem withdrawQueuedWakeUp_atOnce (project : Nat) (reason : String) :
    AtOnce (withdrawQueuedWakeUp project reason) := by
  refine .after .state fun s => ?_
  split
  · exact fun _ => .pure ()
  · next m _ =>
    unfold doWhen
    split
    · exact .map _ (cancelMessage_atOnce _ _)
    · exact fun _ => .pure ()

def DeskOp.withdrawsNote : DeskOp → Bool
  | withdrawNote _ _ => true
  | _ => false

theorem DeskOp.atOnce (op : DeskOp) (h : op.withdrawsNote = false) : AtOnce op.program := by
  cases op with
  | retierOpenTask p n => exact silently .write
  | retitleTask p n b t => exact silently (afterText fun _ => .write)
  | tellOpen p n f w => exact silently (afterText fun _ => .write)
  | takeBack id r => exact silently (afterText fun _ => .write)
  | tellItGoesOn p n => exact .write
  | tellWaitingForFailed p n w => exact .write
  | receiveRead r ids v => exact silently .write
  | claimAnswer q a => exact silently .write
  | settleClaim a r b => exact .write
  | releaseClaims p => exact .write
  | answer q f b c => exact silently .write
  | tellQueued p n f b => exact silently (afterText fun _ => .write)
  | noteRole p w b r => exact silently (send_atOnce _ _ _)
  | noteHold p w n h y => exact silently (send_atOnce _ _ _)
  | note p n => exact silently (send_atOnce _ _ _)
  | tellClosed p n => exact silently .write
  | notePause p w n b g => exact silently (send_atOnce _ _ _)
  | joinPauseNote i n b g => exact silently .write
  | noteStall p n b w g j e => exact silently .write
  | notePausedAnswer p n h t r w => exact silently .write
  | launchCalledOff c => exact .write
  | withdrawNote i r => cases h
  | beginDelivery i => exact silently .write
  | admitHandOver i b => exact silently .write
  | pasteInto i c => exact .write
  | confirmDelivery i r => exact silently .write
  | confirmDeliveryTelling i r => exact silently .write
  | confirmUnproven i m t => exact silently .write
  | retryDelivery i r f l => exact silently (afterText fun _ => .write)
  | cancelMessage i r => exact silently (cancelMessage_atOnce _ _)
  | markRead i => exact silently .write
  | startConversation p h => exact silently .write
  | bindConversation i n => exact silently (afterText fun _ => .write)
  | endConversation i => exact .write
  | followConversation p h n => exact afterText fun _ => .write
  | setConversationRoleText c t => exact .write
  | setProgramGone c g => exact .write
  | queueWakeUp p w => exact silently .write
  | withdrawWakeUp p r => exact withdrawQueuedWakeUp_atOnce _ _
  | releaseStranded => exact .write
  | reconcileReleased => exact .write

section Checks

variable {R : Ledger → Ledger → Prop} [Frame R]

theorem reads_requireRoles (roles : List Role) :
    Reads (requireRoles roles : LedgerTxn R (List Role)) := .bind (.require _ _) fun _ => .pure _

theorem reads_requireFittingRoles (agent : String) (designer : Bool) (roles : List Role) :
    Reads (requireFittingRoles agent designer roles : LedgerTxn R Unit) := .require _ _

theorem reads_distinct (numbers : List Nat) (field : String) :
    Reads (distinct numbers field : LedgerTxn R (List Nat)) := .bind (.require _ _) fun _ => .pure _

theorem reads_checkWork (request : NewTask) :
    Reads (request.checkWork : LedgerTxn R (Option Tier)) := by
  unfold NewTask.checkWork
  repeat' split
  all_goals first
    | exact .pure _
    | exact Work.Reads.fail _

theorem reads_requireBecause (because : Option String) :
    Reads (requireBecause because : LedgerTxn R Unit) := by
  cases because with
  | none => exact .pure _
  | some because => exact reads_requireText _ _ _

end Checks

theorem createProject_atOnce (request : NewProject) : AtOnce (createProject request) := by
  refine afterText fun _ => afterText fun _ => .after (.forM fun m => ?_) fun _ => .write
  refine .bind (.bind (reads_requireRoles _) fun _ => ?_) fun _ => .pure _
  exact .bind (reads_requireFittingRoles _ _ _) fun _ => .pure _

theorem createTask_atOnce (project : Nat) (request : NewTask) :
    AtOnce (createTask project request) :=
  afterText fun _ => .after (reads_distinct _ _) fun _ => .after (reads_distinct _ _) fun _ =>
    .after (reads_checkWork _) fun _ => .write

theorem releaseInside_atOnce (project number : Nat) (because : String) (untouched : Bool) :
    AtOnce (releaseInside project number because untouched) := afterText fun _ => .write

theorem pauseTaskAs_atOnce (project number : Nat) (author because : Option String)
    (withProject : Bool) : AtOnce (pauseTaskAs project number author because withProject) :=
  .after (reads_requireBecause _) fun _ => .write

theorem recordCounted_atOnce (project number : Nat) (body : String) (states : TaskState → Bool)
    (byWord : Bool) : AtOnce (recordCounted project number body states byWord) :=
  afterText fun _ => .write

theorem failAs_atOnce (project number : Nat) (reason cause : String) (givenUp : Bool) :
    AtOnce (failAs project number reason cause givenUp) := afterText fun _ => .write

def BoardOp.pausesWithProject : BoardOp → Bool
  | pauseWithProject _ _ _ => true
  | _ => false

theorem BoardOp.atOnce (op : BoardOp) (h : op.pausesWithProject = false) : AtOnce op.program := by
  cases op with
  | createProject r => exact silently (createProject_atOnce _)
  | renameProject p n => exact silently (afterText fun _ => .write)
  | setMeeting p o => exact silently .write
  | setProjectState p st => exact silently .write
  | suspendForRestart => exact silently .write
  | switchChief p c => exact silently .write
  | addMember p m h =>
    exact silently (.after (reads_requireRoles _) fun _ =>
      .after (reads_requireFittingRoles _ _ _) fun _ => .write)
  | setRoles p h r => exact silently (.after (reads_requireRoles _) fun _ => .write)
  | editMember p h e r => exact silently .write
  | removeMember p h => exact silently .write
  | endSession p h b => exact silently .write
  | markOut p u r =>
    exact silently (.after (.found _ _) fun _ => .after (.found _ _) fun _ =>
      afterText fun _ => .write)
  | markBack p b => exact silently (afterText fun _ => .write)
  | createTask p r => exact silently (createTask_atOnce _ _)
  | assignTask p n m l => exact silently .write
  | releaseTask p n b => exact silently (releaseInside_atOnce _ _ _ _)
  | pauseTask p n b w => exact silently (pauseTaskAs_atOnce _ _ _ _ _)
  | pauseWithProject p n b => cases h
  | unmarkPause p n st => exact .write
  | holdTask p n u b =>
    exact silently (afterText fun _ => .after (.require _ _) fun _ => .write)
  | holdForContext p n b => exact silently (afterText fun _ => .write)
  | clearHold p n b => exact silently (afterText fun _ => .write)
  | relaunchStalled p n w m q i => exact silently .write
  | goOnInWindow p n => exact silently .write
  | workWhileResumed p n => exact silently .write
  | restWhileResumed p n w => exact silently (afterText fun _ => .write)
  | resumeTask p n b w => exact silently (afterText fun _ => .write)
  | recordResult p n b => exact silently (recordCounted_atOnce _ _ _ _ _)
  | recordFinished p n b => exact silently (recordCounted_atOnce _ _ _ _ _)
  | acceptTask p n b => exact silently .write
  | acceptFailedTask p n b c => exact silently .write
  | reopenTask p n b w => exact silently (afterText fun _ => .write)
  | cancelTask p n b => exact silently .write
  | failTask p n r => exact silently (failAs_atOnce _ _ _ _ _)
  | giveUpTask p n r c => exact silently (failAs_atOnce _ _ _ _ _)
  | deleteTasks p ns => exact silently .write
  | ask p q => exact silently (.after (.found _ _) fun _ => .write)
  | giveUpDelivery i r => exact silently (afterText fun _ => .write)
  | declineMessage i b => exact silently .write
  | noteStrandedWaits => exact .write

/-! ## 3. What the property says of a call -/

/-- A call of an engine that may fail anywhere: it returns with what the machine's step says, no
    write in it failed, or the rows and the log are as it found them; and no transaction is open
    after it. -/
def Call.AllOrNothing (c : Call) (s : Ledger) : Prop :=
  ∀ (E : Engine Ledger LedgerError) (conn : Conn Ledger), conn.Rests (s.at_ c.clock) →
    match c.op.work.run E conn with
    | (.returned _, after) => c.op.attempt (s.at_ c.clock) = .ok after.rows ∧ after.begun = none ∧
        ¬ c.op.work.InnerFails E conn
    | (_, after) => after.Rests (s.at_ c.clock)

/-- A queued note of ConsensFlow's own is withdrawn, or a task is paused with its project. -/
def Call.inPieces (c : Call) (s : Ledger) : Bool :=
  match c.op with
  | .desk (.withdrawNote id _) => (s.messages.get? id).any fun m => m.ownNote && m.state == .queued
  | .board (.pauseWithProject project number because) =>
    ((pauseTaskAs project number none (some because) true).run (s.at_ c.clock)).isOk
  | _ => false

section Whole

variable {c : Call} {s : Ledger}

/-- Work of one write is all or nothing. -/
theorem Call.AllOrNothing.of_once (once : c.op.work.Once (s.at_ c.clock)) : c.AllOrNothing s := by
  intro E conn rests
  have ended := once.run_outside E rests
  have step := c.op.attempt_eq (s.at_ c.clock)
  rcases hr : c.op.work.run E conn with ⟨x, after⟩
  rw [hr] at ended
  cases x with
  | failed e => exact ended
  | unwound => exact ended
  | returned u =>
    obtain ⟨flat, closed, whole⟩ := ended
    refine ⟨?_, closed, whole⟩
    rw [step, flat]
    rfl

theorem left_alone_eq (m : Message) :
    (m.kind != .note || m.sender.isSome || m.state != .queued) =
      !(m.ownNote && m.state == .queued) := by
  unfold Message.ownNote bne
  cases m.sender <;> simp

/-- A note that is not withdrawn is only looked at. -/
theorem withdrawQueuedNote_once {id : Nat} {reason : String}
    (stays : ((s.messages.get? id).any fun m => m.ownNote && m.state == .queued) = false) :
    (withdrawQueuedNote id reason).work.Once s := by
  refine .read (fun b s' h => ?_) (fun b s' h => ?_) fun _ => rfl
  · cases h
    rfl
  · cases h
    simp only [Work.passed, Work.bind]
    split
    · exact .pure _
    · next m found =>
      rw [found] at stays
      have other : (!(m.ownNote && m.state == .queued)) = true := by
        rw [Option.any_some] at stays
        rw [stays]
        rfl
      rw [left_alone_eq, if_pos other]
      exact .pure _

/-- A pause that is refused is refused in its write, and nothing is read after it. -/
theorem pauseWithProject_once {project number : Nat} {because : String}
    (refused : ((pauseTaskAs project number none (some because) true).run s).isOk = false) :
    (pauseWithProject project number because).work.Once s := by
  unfold pauseWithProject
  refine refused_once (pauseTaskAs_atOnce _ _ _ _ _ s) fun t s' made => ?_
  rw [made] at refused
  cases refused

/-! ## 4. The two calls that are in pieces -/

section Runs

variable {R : Ledger → Ledger → Prop} {α β : Type} {E : Engine Ledger LedgerError}
  {m : LedgerTxn R α} {k : α → LedgerTxn R β} {conn conn' : Conn Ledger}

end Runs

/-- The rows with a message withdrawn. -/
def Ledger.cancelled (s : Ledger) (id : Nat) (reason : String) : Ledger :=
  s.withMessages (fun m => m.id == id) fun m => { m.to .cancelled with reason := some reason }

end Whole

/-! ## 5. Which calls are all or nothing -/

section Which

variable {c : Call} {s : Ledger}

theorem DeskOp.withdrawsNote_eq {op : DeskOp} (h : op.withdrawsNote = true) :
    ∃ id reason, op = .withdrawNote id reason := by
  unfold withdrawsNote at h
  split at h
  · exact ⟨_, _, rfl⟩
  · cases h

theorem BoardOp.pausesWithProject_eq {op : BoardOp} (h : op.pausesWithProject = true) :
    ∃ project number because, op = .pauseWithProject project number because := by
  unfold pausesWithProject at h
  split at h
  · exact ⟨_, _, _, rfl⟩
  · cases h

/-- A call that is not in pieces is one write at most. -/
theorem Call.once (h : c.inPieces s = false) : c.op.work.Once (s.at_ c.clock) := by
  obtain ⟨op, clock⟩ := c
  cases op with
  | desk op =>
    cases note : op.withdrawsNote with
    | false => exact op.atOnce note _
    | true =>
      obtain ⟨id, reason, rfl⟩ := DeskOp.withdrawsNote_eq note
      exact silent_once (withdrawQueuedNote_once h)
  | board op =>
    cases pauses : op.pausesWithProject with
    | false => exact op.atOnce pauses _
    | true =>
      obtain ⟨project, number, because, rfl⟩ := BoardOp.pausesWithProject_eq pauses
      exact silent_once (pauseWithProject_once h)
  | approveMessage i b => exact silently .write _
  | confirmSentByHand i h r t => exact silently .write _
  | editTask p n b e => exact silently .write _
  | setGate p g => exact silently .write _
  | deleteProject p => exact silently .write _

/-- The connection between calls made one after the other, however each ends, none of which is in
    pieces. -/
inductive Stored : Conn Ledger → Prop where
  | empty : Stored (.idle Ledger.empty)
  | call {conn : Conn Ledger} (h : Stored conn) (E : Engine Ledger LedgerError) (c : Call)
      (whole : c.inPieces conn.rows = false) :
      Stored (c.op.work.run E { conn with rows := conn.rows.at_ c.clock }).2

/-- **Between such calls no transaction is open, and the rows are those of a state a run
    reaches**, as the clock last showed the time. -/
theorem Stored.reachable {conn : Conn Ledger} (h : Stored conn) :
    conn.begun = none ∧ ∃ s clock, Reachable s ∧ conn.rows = s.at_ clock := by
  induction h with
  | empty => exact ⟨rfl, Ledger.empty, [], .empty, rfl⟩
  | @call conn _ E c whole ih =>
    obtain ⟨idle, s, clock, r, rows⟩ := ih
    have once : c.op.work.Once (s.at_ c.clock) := by
      rw [rows] at whole
      exact Call.once whole
    have ended := Call.AllOrNothing.of_once once E { conn with rows := conn.rows.at_ c.clock }
      ⟨by rw [rows]; rfl, idle⟩
    rcases hr : c.op.work.run E { conn with rows := conn.rows.at_ c.clock } with ⟨x, after⟩
    rw [hr] at ended
    cases x with
    | failed e => exact ⟨ended.2, s, c.clock, r, ended.1⟩
    | unwound => exact ⟨ended.2, s, c.clock, r, ended.1⟩
    | returned u =>
      obtain ⟨step, closed, -⟩ := ended
      refine ⟨closed, c.step s, after.rows.readings, r.step c trivial, ?_⟩
      unfold Call.step
      rw [step]
      rfl

end Which

end ConsensFlow
