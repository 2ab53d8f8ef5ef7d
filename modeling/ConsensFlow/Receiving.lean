/-
  File:      ConsensFlow/Receiving.lean
  Subject:   WHAT MAKES A MESSAGE RECEIVED (`messages/receipt.rs`, and `settle_answered` of
             `messages.rs`): a read, a door's hand-over, an answer that stands.

  * `Read.receives`, `Read.keeps` -- which messages a read takes, and which it is kept with while
    their paste is on its way;
  * `receiveRead`, `settleKeptRead`, `toldWhenConfirmed` -- a read, told at once or when the
    delivery ends;
  * `claimAnswer`, `settleClaim`, `releaseClaims` -- a door's claim on an answer;
  * `settleAnswered` -- a question that has an answer is never typed in after.
-/
import ConsensFlow.Finishing

namespace ConsensFlow

open Lib Lib.Text Txn

/-! ## 1. Reads -/

namespace Read

def word : Read → String
  | inbox => "inbox"
  | task => "task"

/-- Whether a message still queued and served whole this way is received by it. -/
def receives (via : Read) (m : Message) : Bool :=
  match via with
  | inbox => m.kind != .task && m.roleText.isNone
  | task => m.kind == .answer

/-- Whether a message on its way and served whole this way keeps the read until its delivery
    ends. -/
def keeps (via : Read) (m : Message) : Bool :=
  match via with
  | inbox => m.kind != .task
  | task => m.kind == .answer

def proof (via : Read) : String := s!"\x7b\"read\":{quoted via.word}\x7d"

end Read

/-- `kept_read`: the read a message on its way was served whole by. -/
def Message.keptRead (m : Message) : Option (Read × Option Nat) :=
  m.receipt.bind fun r => r.readEarly.map fun via => (via, r.readIn)

/-- `with_kept_read`: the proof that a paste arrived, with the read made on its way. -/
def withKeptRead (receipt : Option Receipt) (kept : Option (Read × Option Nat)) : Receipt :=
  match kept with
  | none => receipt.getD { proof := "null" }
  | some (via, conversation) =>
    { receipt.getD { proof := "\x7b\x7d" } with
      readEarly := some via, readIn := conversation }

/-- `keep_read`. -/
def keepRead (m : Message) (via : Read) : DeskM Unit := do
  let s ← state
  let kept := withKeptRead none (some (via, (s.currentConversation m.recipient).map (·.id)))
  setMessagesIn .delivering (fun x => x.id == m.id) fun x => { x with receipt := some kept }

/-- `received_as`: a message that was queued, or on its way, is read. -/
def receivedAs (m : Message) (st : MessageState) (proof : String)
    (hst : st.Unshut := by exact trivial) : DeskM Unit := do
  let t ← now
  setMessagesIn st (fun x => x.id == m.id)
    (fun x => { x.to .read with
      deliveredAt := some t, receipt := some { proof }, claimedAt := none }) hst
  log m.project (.other "message.read" (some m.id))

/-- `settle_kept_read`: the read kept with a message, which is in state `st`, is told. Whether the
    message was settled. -/
def settleKeptRead (id : Nat) (st : MessageState) (hst : st.Unshut := by exact trivial) :
    DeskM Bool := do
  let m ← knownMessage id
  match m.keptRead with
  | none => pure false
  | some (via, _) =>
    if m.state != st || !via.receives m then pure false
    else do
      receivedAs m st via.proof hst
      reconcileOf m.id
      pure true

/-- `set_conversation_role_text`. -/
def setConversationRoleText (conversation : Nat) (text : String) : DeskM Unit :=
  inWrite (updateConversations (fun c => c.id == conversation) fun c =>
    { c with roleText := some text })

/-- `read_role`: a note that says a role, delivered, was printed whole to its recipient. -/
def readRole (m : Message) : DeskM Unit := do
  setMessagesIn .delivered (fun x => x.id == m.id) fun x => x.to .read
  log m.project (.other "message.read" (some m.id))
  let s ← state
  let last := ((s.messages.rows.filter fun x =>
    x.recipient == m.recipient && x.roleText.isSome).map (·.id)).getLast?
  match s.currentConversation m.recipient, m.roleText with
  | some conversation, some role =>
    doWhen (last == some m.id && m.deliveredAt.any fun t => decide (conversation.startedAt ≤ t))
      (setConversationRoleText conversation.id role)
  | _, _ => pure ()

/-- `told_when_confirmed`: a delivery was confirmed of a message read while it was on its way. -/
def toldWhenConfirmed (id : Nat) (kept : Read × Option Nat) : DeskM Unit := do
  let m ← knownMessage id
  let s ← state
  doWhen (kept.1 == .inbox && m.roleText.isSome &&
      (s.currentConversation m.recipient).map (·.id) == kept.2)
    (readRole m)

/-- One message served whole: whether it was received, and its task to reconcile. -/
def receiveOne (recipient : Nat) (via : Read) (id : Nat) : DeskM (Bool × Option Nat) := do
  let s ← state
  match (s.messages.get? id).filter fun m => m.recipient == recipient with
  | none => pure (false, none)
  | some m =>
    if via == .inbox && m.roleText.isSome && m.state == .delivered then do
      readRole m
      pure (true, none)
    else if m.state == .delivering then do
      doWhen (via.keeps m) (keepRead m via)
      pure (false, none)
    else if m.state != .queued || !via.receives m then pure (false, none)
    else do
      receivedAs m .queued via.proof
      let task ← messageTask m.id
      pure (true, task.map (·.id))

/-- `receive_read`: how many were received. -/
def receiveRead (recipient : Nat) (ids : List Nat) (via : Read) : DeskM Nat := inWrite do
  let done ← ids.mapM (receiveOne recipient via)
  ((done.filterMap (·.2)).eraseDups).forM reconcile
  pure (done.filter (·.1)).length

/-! ## 2. Doors -/

/-- `door_born_closed`: whether a question its window asks about the task comes from a turn that
    is an old one already. -/
def Ledger.doorBornClosed (s : Ledger) (task : Task) : Bool :=
  task.assignee.any fun window =>
    match task.state with
    | .paused => true
    | .queued => s.messages.rows.any fun m => m.task == some task.id && m.recipient == window &&
        m.kind == .task && (m.state == .queued || m.state == .gated)
    | .working | .waiting => (s.resumeWordsOf task).any fun m => m.state != .delivering
    | _ => false

/-- What a door's asking comes to. -/
inductive Claim where
  | closed
  | waiting
  | answered (m : Message)

def notAQuestion (id : Nat) : LedgerError :=
  .refused "not-a-question" s!"message {id} is not a question" 409

/-- Whether a project is open. -/
def Ledger.isOpen (s : Ledger) (project : Nat) : Bool :=
  (s.projects.get? project).any fun p => p.state == .opened

/-- The answer to a question that was not given up on, and is not held. -/
def Ledger.answerTo (s : Ledger) (question : Nat) : Option Message :=
  s.messages.rows.find? fun a => a.replyTo == some question && a.kind == .answer &&
    a.state != .gated && a.state != .cancelled && a.state != .failed

/-- `claim_answer`. -/
def claimAnswer (question asker : Nat) : DeskM Claim := inWrite do
  let s ← state
  let q ← found ((s.messages.get? question).filter fun m => m.kind == .question)
    (notAQuestion question)
  require (q.sender == some asker)
    (.refused "not-your-question" s!"m-{question} was asked by someone else" 403)
  let paused := (q.task.bind s.tasks.get?).any fun t => t.state == .paused
  if q.doorClosedAt.isSome || paused then pure .closed
  else match s.answerTo question with
    | none => pure .waiting
    | some a =>
      if a.state == .read then pure (.answered a)
      else if a.state != .queued || a.carriedBy.isSome then pure .closed
      else if a.claimedAt.isSome then pure (.answered a)
      else if !s.isOpen q.project then pure .waiting
      else do
        let t ← now
        setMessage a.id fun m => { m with claimedAt := some t }
        log q.project (.other "delivery.claimed" (some a.id))
        let a ← knownMessage a.id
        pure (.answered a)

/-- `settle_claim`: a door says whether it handed the answer it claimed to its harness. -/
def settleClaim (answer recipient : Nat) (received : Bool) : DeskM Unit := inWrite do
  let s ← state
  let a ← found ((s.messages.get? answer).filter fun a => a.kind == .answer &&
      a.recipient == recipient)
    (.refused "unknown-message" s!"no answer m-{answer} for you" 404)
  if !received then
    setMessages (fun m => m.id == answer && m.state == .queued) fun m =>
      { m with claimedAt := none }
  else if a.state == .read then pure ()
  else do
    let open_ := (a.replyTo.bind s.messages.get?).any fun q => q.doorClosedAt.isNone
    require (a.state == .queued && a.carriedBy.isNone && open_)
      (.refused "door-closed" s!"m-{answer} is not answered here: it comes to you as a message" 409)
    receivedAs a .queued "\x7b\"door\":true\x7d"
    reconcileOf a.id

/-- `release`: the claims on answers that no door acknowledged are voided, of one window or of
    all. -/
def releaseClaims (participant : Option Nat) : DeskM Unit := inWrite do
  let s ← state
  let claimed := s.messages.rows.filter fun m => m.claimedAt.isSome && m.state == .queued &&
    (participant.isNone || participant == some m.recipient)
  claimed.forM fun a => unclaimed a.project a.id
  ((claimed.filterMap fun a => (a.task.bind s.tasks.get?).map (·.id)).eraseDups).forM reconcile

/-! ## 3. Questions answered -/

/-- The first answer to a question that stands. -/
def Ledger.standingAnswer (s : Ledger) (question : Nat) : Option Message :=
  s.messages.rows.find? fun a => a.replyTo == some question && a.kind == .answer &&
    a.state != .cancelled && a.state != .failed

/-- `settle_answered`: a question that has an answer standing is read, still queued. -/
def settleAnswered (question : Nat) : DeskM Unit := do
  let q ← knownMessage question
  let s ← state
  match s.standingAnswer question with
  | none => pure ()
  | some a =>
    doWhen (q.kind == .question && q.state == .queued)
      (setMessagesIn .queued (fun m => m.id == question) fun m =>
        { m.to .read with
          deliveredAt := some a.createdAt
          receipt := some { proof := s!"\x7b\"answered\":{a.id}\x7d" } })

end ConsensFlow
