/-
  File:      ConsensFlow/Machine.lean
  Subject:   THE LEDGER AS A STATE MACHINE: every call its callers make, and every run of them
             (`ledger.rs`, `ledger/*.rs`).

  * `DeskOp` -- the calls that write the mail and nothing the board shows;
  * `BoardOp` -- the calls that may write the board;
  * `Op` -- these, and the five that have an excuse: the human's approval, a message sent by hand,
    an edit, a gate turned, a project deleted;
  * `Call.step` -- a call with what the clock shows it: the ledger it leaves, which is the ledger
    before it where the call was refused;
  * `Run C` -- the runs from an empty ledger whose calls all meet `C`; **`Run.invariant`**, the
    rule every invariant is proved by;
  * `Ledger.after`, `Checked` -- the run that calls given in a row make.
-/
import ConsensFlow.Projects

namespace ConsensFlow

open Lib Txn

/-! ## 1. Calls that write the mail -/

/-- The calls that leave the board as it is. -/
inductive DeskOp where
  | retierOpenTask (project number : Nat)
  | retitleTask (project number : Nat) (by_ title : String)
  | tellOpen (project number : Nat) (sender words : String)
  | takeBack (id : Nat) (reason : String)
  | tellItGoesOn (project number : Nat)
  | tellWaitingForFailed (project number : Nat) (named : String)
  | receiveRead (recipient : Nat) (ids : List Nat) (via : Read)
  | claimAnswer (question asker : Nat)
  | settleClaim (answer recipient : Nat) (received : Bool)
  | releaseClaims (participant : Option Nat)
  | answer (question sender : Nat) (body : String) (choices : Option (List (List String)))
  | tellQueued (project number : Nat) (sender body : String)
  | noteRole (project : Nat) (whom body role : String)
  | noteHold (project : Nat) (whom : String) (number : Nat) (handle : String) (why : HoldNote)
  | note (project : Nat) (n : NewNote)
  | tellClosed (project : Nat) (n : NewNote)
  | notePause (project : Nat) (whom : String) (number : Nat) (because : String) (harnessGone : Bool)
  | joinPauseNote (id number : Nat) (because : String) (harnessGone : Bool)
  | noteStall (project number : Nat) (because why : String) (harnessGone : Bool)
      (join except_ : Option Nat)
  | notePausedAnswer (project number : Nat) (handle : String) (tell : Nat) (reply : Option String)
      (words : String)
  | launchCalledOff (carrier : Nat)
  | withdrawNote (id : Nat) (reason : String)
  | beginDelivery (id : Nat)
  | admitHandOver (id : Nat) (begunWith : List Nat)
  | pasteInto (id conversation : Nat)
  | confirmDelivery (id : Nat) (receipt : Option Receipt)
  | confirmDeliveryTelling (id : Nat) (receipt : Option Receipt)
  | confirmUnproven (id : Nat) (item : String) (tell : List NewNote)
  | retryDelivery (id : Nat) (reason : String) (refund logged : Bool)
  | cancelMessage (id : Nat) (reason : String)
  | markRead (id : Nat)
  | startConversation (participant : Nat) (harness : String)
  | bindConversation (id : Nat) (native : String)
  | endConversation (id : Nat)
  | followConversation (participant : Nat) (harness native : String)
  | setConversationRoleText (conversation : Nat) (text : String)
  | setProgramGone (conversation : Nat) (gone : Bool)
  | queueWakeUp (project : Nat) (words : String)
  | withdrawWakeUp (project : Nat) (reason : String)
  | releaseStranded
  | reconcileReleased

/-- A program without its answer. -/
def silent {R : Ledger → Ledger → Prop} [Frame R] {α : Type} (m : LedgerTxn R α) :
    LedgerTxn R Unit := (fun _ => ()) <$> m

/-- The program of a call. -/
def DeskOp.program : DeskOp → DeskM Unit
  | retierOpenTask p n => silent (ConsensFlow.retierOpenTask p n)
  | retitleTask p n b t => silent (ConsensFlow.retitleTask p n b t)
  | tellOpen p n f w => silent (ConsensFlow.tellOpen p n f w)
  | takeBack id r => silent (ConsensFlow.takeBack id r)
  | tellItGoesOn p n => ConsensFlow.tellItGoesOn p n
  | tellWaitingForFailed p n w => ConsensFlow.tellWaitingForFailed p n w
  | receiveRead r ids v => silent (ConsensFlow.receiveRead r ids v)
  | claimAnswer q a => silent (ConsensFlow.claimAnswer q a)
  | settleClaim a r b => ConsensFlow.settleClaim a r b
  | releaseClaims p => ConsensFlow.releaseClaims p
  | answer q f b c => silent (ConsensFlow.answer q f b c)
  | tellQueued p n f b => silent (ConsensFlow.tellQueued p n f b)
  | noteRole p w b r => silent (ConsensFlow.noteRole p w b r)
  | noteHold p w n h y => silent (ConsensFlow.noteHold p w n h y)
  | note p n => silent (ConsensFlow.note p n)
  | tellClosed p n => silent (ConsensFlow.tellClosed p n)
  | notePause p w n b g => silent (ConsensFlow.notePause p w n b g)
  | joinPauseNote i n b g => silent (ConsensFlow.joinPauseNote i n b g)
  | noteStall p n b w g j e => silent (ConsensFlow.noteStall p n b w g j e)
  | notePausedAnswer p n h t r w => silent (ConsensFlow.notePausedAnswer p n h t r w)
  | launchCalledOff c => ConsensFlow.launchCalledOff c
  | withdrawNote i r => silent (withdrawQueuedNote i r)
  | beginDelivery i => silent (ConsensFlow.beginDelivery i)
  | admitHandOver i b => silent (ConsensFlow.admitHandOver i b)
  | pasteInto i c => ConsensFlow.pasteInto i c
  | confirmDelivery i r => silent (ConsensFlow.confirmDelivery i r)
  | confirmDeliveryTelling i r => silent (ConsensFlow.confirmDeliveryTelling i r)
  | confirmUnproven i m t => silent (ConsensFlow.confirmUnproven i m t)
  | retryDelivery i r f l => silent (ConsensFlow.retryDelivery i r f l)
  | cancelMessage i r => silent (ConsensFlow.cancelMessage i r)
  | markRead i => silent (ConsensFlow.markRead i)
  | startConversation p h => silent (ConsensFlow.startConversation p h)
  | bindConversation i n => silent (ConsensFlow.bindConversation i n)
  | endConversation i => ConsensFlow.endConversation i
  | followConversation p h n => ConsensFlow.followConversation p h n
  | setConversationRoleText c t => ConsensFlow.setConversationRoleText c t
  | setProgramGone c g => ConsensFlow.setProgramGone c g
  | queueWakeUp p w => silent (ConsensFlow.queueWakeUp p w)
  | withdrawWakeUp p r => withdrawQueuedWakeUp p r
  | releaseStranded => ConsensFlow.releaseStranded
  | reconcileReleased => ConsensFlow.reconcileReleased

/-! ## 2. Calls that may write the board -/

/-- The calls that may write the board. The names drawn for sessions and the handles made of
    models come with the call that needs them. -/
inductive BoardOp where
  | createProject (request : NewProject)
  | renameProject (project : Nat) (name : String)
  | setMeeting (project : Nat) (on : Bool)
  | setProjectState (project : Nat) (state : ProjectState)
  | suspendForRestart
  | switchChief (project : Nat) (switch : NewChief)
  | addMember (project : Nat) (m : NewMember) (handle : String)
  | setRoles (project : Nat) (handle : String) (roles : List Role)
  | editMember (project : Nat) (handle : String) (edit : MemberEdit) (renamed : String)
  | removeMember (project : Nat) (handle : String)
  | endSession (project : Nat) (handle by_ : String)
  | markOut (participant : Nat) (until_ reason : String)
  | markBack (participant : Nat) (because : String)
  | createTask (project : Nat) (request : NewTask)
  | assignTask (project number participant : Nat) (names : List String)
  | releaseTask (project number : Nat) (because : String)
  | pauseTask (project number : Nat) (by_ because : Option String)
  | pauseWithProject (project number : Nat) (because : String)
  | unmarkPause (project number stop : Nat)
  | holdTask (project number : Nat) (until_ because : String)
  | holdForContext (project number : Nat) (because : String)
  | clearHold (project number : Nat) (because : String)
  | relaunchStalled (project number participant message seq : Nat) (item : String)
  | goOnInWindow (project number : Nat)
  | workWhileResumed (project number : Nat)
  | restWhileResumed (project number : Nat) (why : String)
  | resumeTask (project number : Nat) (by_ : Option String) (body : String)
  | recordResult (project number : Nat) (body : String)
  | recordFinished (project number : Nat) (body : String)
  | acceptTask (project number : Nat) (by_ : String)
  | acceptFailedTask (project number : Nat) (by_ checked : String)
  | reopenTask (project number : Nat) (by_ body : String)
  | cancelTask (project number : Nat) (by_ : String)
  | failTask (project number : Nat) (reason : String)
  | giveUpTask (project number : Nat) (reason cause : String)
  | deleteTasks (project : Nat) (numbers : List Nat)
  | ask (project : Nat) (q : NewQuestion)
  | giveUpDelivery (id : Nat) (reason : String)
  | declineMessage (id : Nat) (by_ : String)
  | noteStrandedWaits

/-- The program of a call. -/
def BoardOp.program : BoardOp → LedgerM Unit
  | createProject r => silent (ConsensFlow.createProject r)
  | renameProject p n => silent (ConsensFlow.renameProject p n)
  | setMeeting p o => silent (ConsensFlow.setMeeting p o)
  | setProjectState p st => silent (ConsensFlow.setProjectState p st)
  | suspendForRestart => silent ConsensFlow.suspendForRestart
  | switchChief p c => silent (ConsensFlow.switchChief p c)
  | addMember p m h => silent (ConsensFlow.addMember p m h)
  | setRoles p h r => silent (ConsensFlow.setRoles p h r)
  | editMember p h e r => silent (ConsensFlow.editMember p h e r)
  | removeMember p h => silent (ConsensFlow.removeMember p h)
  | endSession p h b => silent (ConsensFlow.endSession p h b)
  | markOut p u r => silent (ConsensFlow.markOut p u r)
  | markBack p b => silent (ConsensFlow.markBack p b)
  | createTask p r => silent (ConsensFlow.createTask p r)
  | assignTask p n m l => silent (ConsensFlow.assignTask p n m l)
  | releaseTask p n b => silent (ConsensFlow.releaseTask p n b)
  | pauseTask p n b w => silent (ConsensFlow.pauseTask p n b w)
  | pauseWithProject p n b => silent (ConsensFlow.pauseWithProject p n b)
  | unmarkPause p n st => ConsensFlow.unmarkPause p n st
  | holdTask p n u b => silent (ConsensFlow.holdTask p n u b)
  | holdForContext p n b => silent (ConsensFlow.holdForContext p n b)
  | clearHold p n b => silent (ConsensFlow.clearHold p n b)
  | relaunchStalled p n w m q i => silent (ConsensFlow.relaunchStalled p n w m q i)
  | goOnInWindow p n => silent (ConsensFlow.goOnInWindow p n)
  | workWhileResumed p n => silent (ConsensFlow.workWhileResumed p n)
  | restWhileResumed p n w => silent (ConsensFlow.restWhileResumed p n w)
  | resumeTask p n b w => silent (ConsensFlow.resumeTask p n b w)
  | recordResult p n b => silent (ConsensFlow.recordResult p n b)
  | recordFinished p n b => silent (ConsensFlow.recordFinished p n b)
  | acceptTask p n b => silent (ConsensFlow.acceptTask p n b)
  | acceptFailedTask p n b c => silent (ConsensFlow.acceptFailedTask p n b c)
  | reopenTask p n b w => silent (ConsensFlow.reopenTask p n b w)
  | cancelTask p n b => silent (ConsensFlow.cancelTask p n b)
  | failTask p n r => silent (ConsensFlow.failTask p n r)
  | giveUpTask p n r c => silent (ConsensFlow.giveUpTask p n r c)
  | deleteTasks p ns => silent (ConsensFlow.deleteTasks p ns)
  | ask p q => silent (ConsensFlow.ask p q)
  | giveUpDelivery i r => silent (ConsensFlow.giveUpDelivery i r)
  | declineMessage i b => silent (ConsensFlow.declineMessage i b)
  | noteStrandedWaits => ConsensFlow.noteStrandedWaits

/-! ## 3. Every call -/

/-- A call of the ledger. -/
inductive Op where
  | desk (op : DeskOp)
  | board (op : BoardOp)
  | approveMessage (id : Nat) (by_ : String)
  | confirmSentByHand (id : Nat) (held : List Nat) (receipt : Receipt) (telling : Bool)
  | editTask (project number : Nat) (by_ : String) (edit : TaskEdit)
  | setGate (project : Nat) (gate : Bool)
  | deleteProject (project : Nat)

/-- What a call does to the ledger, or why it is refused. -/
def Op.attempt (op : Op) (s : Ledger) : Except LedgerError Ledger :=
  match op with
  | desk op => Prod.snd <$> op.program.run s
  | board op => Prod.snd <$> op.program.run s
  | approveMessage i b => Prod.snd <$> (ConsensFlow.approveMessage i b).run s
  | confirmSentByHand i h r t => Prod.snd <$> (ConsensFlow.confirmSentByHand i h r t).run s
  | editTask p n b e => Prod.snd <$> (editTaskWith p n b e).run s
  | setGate p g => Prod.snd <$> (ConsensFlow.setGate p g).run s
  | deleteProject p => Prod.snd <$> (ConsensFlow.deleteProject p).run s

/-- A call, with what the clock shows it. -/
structure Call where
  op : Op
  clock : List Time

/-- The ledger as the clock of a call shows it the time. -/
def Ledger.at_ (s : Ledger) (clock : List Time) : Ledger := { s with readings := clock }

/-- The ledger a call leaves: a call refused leaves it as it was. -/
def Call.step (c : Call) (s : Ledger) : Ledger :=
  match c.op.attempt (s.at_ c.clock) with
  | .ok s' => s'
  | .error _ => s

/-- The runs from an empty ledger in which every call meets `C` in the state it is made in. -/
inductive Run (C : Ledger → Call → Prop) : Ledger → Prop where
  | empty : Run C Ledger.empty
  | step {s : Ledger} (r : Run C s) (c : Call) (h : C s c) : Run C (c.step s)

/-- The ledgers any run reaches. -/
abbrev Reachable : Ledger → Prop := Run fun _ _ => True

/-- **The rule of invariants**: what holds of an empty ledger and is kept by every call that is
    not refused holds in every state a run reaches. -/
theorem Run.invariant {C : Ledger → Call → Prop} {P : Ledger → Prop} (h0 : P Ledger.empty)
    (hs : ∀ s c s', P s → C s c → c.op.attempt (s.at_ c.clock) = .ok s' → P s')
    {s : Ledger} (r : Run C s) : P s := by
  induction r with
  | empty => exact h0
  | step r c hc ih =>
    unfold Call.step
    split
    · next s' he => exact hs _ c s' ih hc he
    · exact ih

/-- The ledger after calls made one after the other. -/
def Ledger.after (s : Ledger) (calls : List Call) : Ledger := calls.foldl (fun s c => c.step s) s

/-- Each of the calls meets `C` in the state it is made in. -/
def Checked (C : Ledger → Call → Prop) : Ledger → List Call → Prop
  | _, [] => True
  | s, c :: calls => C s c ∧ Checked C (c.step s) calls

instance Checked.decide {C : Ledger → Call → Prop} [hC : ∀ s c, Decidable (C s c)] :
    ∀ (s : Ledger) (calls : List Call), Decidable (Checked C s calls)
  | _, [] => .isTrue trivial
  | s, c :: calls =>
    have := hC s c
    have := Checked.decide (C := C) (c.step s) calls
    inferInstanceAs (Decidable (C s c ∧ Checked C (c.step s) calls))

theorem Run.after {C : Ledger → Call → Prop} {s : Ledger} (r : Run C s) {calls : List Call}
    (h : Checked C s calls) : Run C (s.after calls) := by
  induction calls generalizing s with
  | nil => exact r
  | cons c calls ih => exact ih (r.step c h.1) h.2

/-- Any calls make a run. -/
theorem reachable_after (calls : List Call) : Reachable (Ledger.empty.after calls) := by
  refine Run.empty.after ?_
  have any : ∀ (calls : List Call) (s : Ledger), Checked (fun _ _ => True) s calls := by
    intro calls
    induction calls with
    | nil => exact fun _ => trivial
    | cons c calls ih => exact fun s => ⟨trivial, ih _⟩
  exact any calls _

@[simp] theorem run_silent {R : Ledger → Ledger → Prop} [Frame R] {α : Type} {m : LedgerTxn R α}
    {s s' : Ledger} {u : Unit} : (silent m).run s = .ok (u, s') ↔ ∃ a, m.run s = .ok (a, s') := by
  simp [silent]

/-- A program that ended: its answer, and the ledger it left. -/
theorem snd_ok {ε α β : Type} {e : Except ε (α × β)} {b : β} (h : Prod.snd <$> e = .ok b) :
    ∃ a, e = .ok (a, b) := by
  cases e with
  | error _ => cases h
  | ok r =>
    cases h
    exact ⟨r.1, rfl⟩

end ConsensFlow
