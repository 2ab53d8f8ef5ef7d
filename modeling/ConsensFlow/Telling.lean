/-
  File:      ConsensFlow/Telling.lean
  Subject:   WHAT A REQUESTER, A TELLER OR AN ANSWERER IS TOLD (`messages/pauses.rs`,
             `messages/holds.rs`, `messages/paused_answers.rs`, `messages/told.rs`,
             `messages/again.rs`).

  * `notePause`, `joinPauseNote`, `leavePauseNotes`, `withdrawnOnItsWay`, `sayAgain` -- the note
    of a pause: queued, joined, left when its task moves on, its warning said again;
  * `noteHold`, `tellGoesOn` -- the note of a hold, and that the task goes on;
  * `keepMoved`, `putBackPausedAnswers` -- the notes of what a paused window answered;
  * `keptForResume`, `Ledger.unreceived`, `tellTheOthers` -- words told to a window that it has
    not had, kept for the resume or gone with the task;
  * `tellFailedAnswer`, `tellSentBack` -- an answer that did not stand.
-/
import ConsensFlow.Carrying
import ConsensFlow.Notes

namespace ConsensFlow

open Lib Lib.Text Txn

/-! ## 1. The note of a pause -/

theorem spared_note {id : Nat} {f : Message → Message}
    (h : ∀ m, (f m).stamp = m.stamp ∧ (f m).carriedBy = m.carriedBy) (m : Message)
    (hp : (m.id == id && m.ownNote) = true) : Spared m (f m) := by
  simp only [Message.ownNote, Bool.and_eq_true, beq_iff_eq, Option.isNone_iff_eq_none] at hp
  obtain ⟨-, hk, hn⟩ := hp
  have hk' : (f m).kind = .note := (congrArg Stamp.kind (h m).1).trans hk
  have hs : ¬ m.sender.isSome = true := by simp [hn]
  refine ⟨⟨(h m).1, Or.inl (h m).2⟩, ?_, fun k => absurd k hs, fun k => absurd k hs⟩
  simp [Message.brief, hk, hk']

/-- `UPDATE message SET … WHERE id = ?`, of a note of ConsensFlow's own, as each caller read it:
    no words of a participant's change by it, and no brief. -/
def setNote (id : Nat) (f : Message → Message)
    (h : ∀ m, (f m).stamp = m.stamp ∧ (f m).carriedBy = m.carriedBy := by
      intro m; exact ⟨rfl, rfl⟩)
    (k : ∀ m human, Steady human m (f m) := by intro m human; exact .same rfl rfl rfl) :
    DeskM Unit :=
  setMessages (fun m => m.id == id && m.ownNote) f fun m hp => ⟨spared_note h m hp, k m⟩

/-- The same, held to nothing of what rides. -/
def setNoteLoosely (id : Nat) (f : Message → Message)
    (h : ∀ m, (f m).stamp = m.stamp ∧ (f m).carriedBy = m.carriedBy := by
      intro m; exact ⟨rfl, rfl⟩) : LooseM Unit :=
  setLoosely (fun m => m.id == id && m.ownNote) f (spared_note h)

/-- A message on its way goes back to its queue, on its own, kept for its task's resume. -/
def keepForResume (id number : Nat) (why : String) : DeskM Unit :=
  setMessagesIn .delivering (fun m => m.id == id) fun m =>
    { m.to .queued with
      reason := some s!"kept for T-{number}'s resume: {why}", carriedBy := none, handedAt := none }

/-- A task by the number a note names, which may be no task's. -/
def taskRowNamed (project : Nat) (number : Int) : DeskM Task :=
  match number with
  | .ofNat n => taskRow project n
  | n => refuse (.refused "unknown-task" s!"no task T-{n} in project {project}" 404)

/-- The note of a task paused, with the way on it gives. -/
def tellPaused (project : Nat) (whom : String) (number : Nat) (because : String) (way : Way) :
    DeskM Message :=
  sendNote project whom (some number) (Paused.render [{ number, because, way }])

def notePause (project : Nat) (whom : String) (number : Nat) (because : String)
    (harnessGone : Bool) : DeskM Message :=
  tellPaused project whom number because (Way.ofStall harnessGone)

def noteHeldForContext (project : Nat) (whom : String) (number : Nat) (because : String) :
    DeskM Message :=
  tellPaused project whom number because .held

/-- `set`: writes the words of a note naming `ps`. A note naming one task is tied to it. -/
def setPaused (id project : Nat) (ps : List Paused) : DeskM Unit := do
  let task ← match ps with
    | [one] => (fun t => some t.id) <$> taskRowNamed project one.number
    | _ => pure none
  setNote id fun m => { m with body := Paused.render ps, task }

/-- Adds a task to a pause note still queued; none when the note cannot take it. A task the
    note names already stays as it is. -/
def joinPauseNote (id number : Nat) (because : String) (harnessGone : Bool) :
    DeskM (Option Message) := inWrite do
  let s ← state
  match (s.messages.get? id).filter fun m => m.ownNote && m.state == .queued with
  | none => pure none
  | some note =>
    match Paused.read note.body with
    | none => pure none
    | some ps => do
      let joins : Paused := { number, because, way := Way.ofStall harnessGone }
      doWhen (ps.all fun p => p.number != (number : Int)) (setPaused id note.project
        ((ps ++ [joins]).insertionSort fun a b => a.number ≤ b.number))
      let s ← state
      pure (s.messages.get? id)

/-- Says each of `warnings` again to the task's requester, as what came before `why`. -/
def sayAgain (task : Task) (why : String) (warnings : List String) : DeskM Unit := do
  let requester ← participantRow task.requester
  warnings.forM fun because => do
    let _ ← sendNote task.project requester.handle none
      s!"T-{task.number} {why}. Before that, {because}."
    pure ()

/-- The notes that ConsensFlow wrote to the task's requester about it that give an answer of its
    window, in the states `p` holds of. -/
def Ledger.answerNotes (s : Ledger) (task : Task) (p : Message → Bool) : List (Nat × Answered) :=
  s.messages.rows.filterMap fun m =>
    if m.task == some task.id && m.recipient == task.requester && m.ownNote && p m then
      (Answered.read m.body).map fun said => (m.id, said)
    else none

/-- The task is paused no more: the notes of its window's answers not yet pasted say so. -/
def keepMoved (task : Task) : DeskM Unit := do
  let s ← state
  (s.answerNotes task fun m => m.state == .queued).forM fun (id, said) =>
    match said.then_ with
    | .paused _ =>
      setNote id fun m => { m with body := Answered.render { said with then_ := .moved } }
    | _ => pure ()

/-- Where a task goes as it leaves a wait. -/
inductive Afterwards where
  | movesOn | staysPaused
  deriving DecidableEq, Repr

/-- The notes of a task's wait still queued for its requester, about it alone. -/
def Message.waitNote (m : Message) (task : Task) : Bool :=
  m.task == some task.id && m.recipient == task.requester && m.ownNote && m.state == .queued &&
    m.body != goesOn task.number && !opens (Answered.prefixes task.number).1 m.body &&
    !opens (Answered.prefixes task.number).2 m.body

/-- One note of several tasks loses the task: what it warned of it. -/
def leaveOne (task : Task) (reason : String) (note : Message) : DeskM (List String) :=
  match Paused.read note.body with
  | none => pure []
  | some ps =>
    let left := ps.filter fun p => p.number != (task.number : Int)
    if left.length = ps.length then pure []
    else do
      if left.isEmpty then withdraw note.id reason else setPaused note.id task.project left
      pure (warningIn note.body task.number).toList

/-- A task that no longer waits is told no more; a warning its notes said is said again. -/
def leavePauseNotes (task : Task) (why : String) (afterwards : Afterwards) : DeskM Unit := do
  let reason := s!"T-{task.number} {why}"
  doWhen (afterwards == .movesOn) (keepMoved task)
  let s ← state
  let alone := s.messages.rows.filter fun m => m.waitNote task
  setMessages (fun m => m.waitNote task)
    fun m => { m.to .cancelled with reason := some reason }
  let s ← state
  let several := s.messages.rows.filter fun m => m.project == task.project &&
    m.recipient == task.requester && m.ownNote && m.task.isNone && m.state == .queued
  let warned ← several.mapM (leaveOne task reason)
  sayAgain task why
    (alone.filterMap (fun m => warningIn m.body task.number) ++ warned.flatten)

/-- The warnings the pause notes of `task` alone still queued for its requester say. -/
def Ledger.warningsQueued (s : Ledger) (task : Task) : List String :=
  s.messages.rows.filterMap fun m =>
    if m.ownNote && m.state == .queued && m.recipient == task.requester && m.task == some task.id
    then warningIn m.body task.number else none

/-- The pause notes of `task` on their way to its requester that say a warning of it. -/
def Ledger.warningsOnTheirWay (s : Ledger) (task : Task) : List Nat :=
  (s.messages.rows.filter fun m => m.ownNote && m.state == .delivering &&
    m.recipient == task.requester && m.task == some task.id &&
    (warningIn m.body task.number).isSome).map (·.id)

def What.movesTask : What → Option Nat
  | .taskState n _ _ _ => some n
  | .taskReleased n _ _ _ => some n
  | .taskAssigned n _ => some n
  | _ => none

/-- Whether a task moved while a message was on its way: a move of it is logged after the
    message's last delivery began. -/
def Ledger.movedOnItsWay (s : Ledger) (m : Message) (number : Int) : Bool :=
  match ((s.events.rows.filter fun e =>
      e.project == m.project && e.what == .deliveryBegun m.id).map (·.id)).getLast? with
  | none => false
  | some begun => s.events.rows.any fun e => e.project == m.project && begun < e.id &&
      e.what.movesTask.any fun n => (n : Int) == number

/-- What became of a task a pause note named that moved on. -/
def movedOn : TaskState → String
  | .queued | .working | .waiting => "resumed"
  | .paused => "was paused again"
  | .opened => "was taken back"
  | .done => "was done"
  | .accepted => "was accepted"
  | .failed => "failed"
  | .cancelled => "cancelled"

/-- A message on its way and not to arrive, if it is a pause note naming a task that moved on
    meanwhile: each such task leaves it, and a warning it said of it is said again. Whether the
    note is withdrawn. -/
def withdrawnOnItsWay (m : Message) : DeskM Bool :=
  if !m.ownNote then pure false
  else match Paused.read m.body with
    | none => pure false
    | some ps => do
      let rows ← ps.mapM fun p => do
        let t ← taskRowNamed m.project p.number
        let s ← state
        pure (p, t, t.state == .paused && !s.movedOnItsWay m p.number)
      let left := (rows.filter (·.2.2)).map (·.1)
      let gone := rows.filter fun r => !r.2.2
      if gone.isEmpty then pure false
      else do
        gone.forM fun (p, t, _) =>
          if warns p.because then sayAgain t (movedOn t.state) [p.because] else pure ()
        if !left.isEmpty then do
          setPaused m.id m.project left
          pure false
        else do
          withdraw m.id (", ".intercalate (gone.map fun (_, t, _) =>
            s!"T-{t.number} {movedOn t.state}"))
          log m.project (.other "delivery.cancelled" (some m.id))
          pure true

/-! ## 2. Words told to a window, kept -/

/-- The pause notes still queued that may name the task: the newest first. -/
def Ledger.pauseNotesFor (s : Ledger) (task : Task) : List Message :=
  (s.messages.rows.filter fun m => m.project == task.project && m.recipient == task.requester &&
    m.ownNote && m.state == .queued && (m.task == some task.id || m.task.isNone)).reverse

/-- The note that names the task, and its words with told words `m` named in them. -/
def keptNote (task : Task) (m : Message) (why : String) (note : Message) :
    Option (Nat × List Paused) := do
  let ps ← Paused.read note.body
  let _ ← ps.find? fun p => p.number == (task.number : Int)
  let i := ps.findIdx fun p => p.number == (task.number : Int)
  pure (note.id, ps.modify i fun p =>
    { p with because := withKept p.because m.id why (m.state == .gated) (p.way == .gone) })

/-- Told words kept for the task's resume: its requester hears why, and which words wait, once. -/
def tellKept (task : Task) (m : Message) (why : String) : DeskM Unit := do
  let s ← state
  match (s.pauseNotesFor task).findSome? (keptNote task m why) with
  | some (id, ps) => setPaused id task.project ps
  | none => do
    let requester ← participantRow task.requester
    let waits := if m.state == .gated then s!"waits for the human, then T-{task.number}'s resume"
      else s!"waits for T-{task.number}'s resume"
    let teller := match m.sender with
      | some p => s.handleOf p
      | none => "null"
    let _ ← sendNote task.project requester.handle (some task.number)
      s!"m-{m.id}, what @{teller} told T-{task.number}'s window, {waits}: {why}."
    pure ()

/-- The handle of the task's assignee. -/
def assigneeOf (task : Task) : DeskM (Option String) :=
  match task.assignee with
  | none => pure none
  | some id => (fun p => some p.handle) <$> participantRow id

theorem assigneeOf_ok {t : Task} {o : Option String} {s s' : Ledger}
    (h : (assigneeOf t).run s = .ok (o, s')) : s = s' := by
  unfold assigneeOf at h
  split at h
  · exact (run_pure_ok.mp h).2
  · obtain ⟨p, hp, -⟩ := run_map_ok.mp h
    exact (participantRow_ok hp).1

/-- Told words whose last paste failed while their task was paused: whether they were kept. -/
def keptForResume (m : Message) (task : Task) (reason : String) : DeskM Bool :=
  if task.state != .paused then pure false
  else do
    let assignee ← assigneeOf task
    let s ← state
    if !s.isTold m assignee then pure false
    else do
      keepForResume m.id task.number reason
      log m.project (.other "delivery.kept" (some m.id))
      adopt m.id
      tellKept task m reason
      pure true

/-- Whether a row rides in a paste on its way. -/
def Ledger.ridesOnItsWay (s : Ledger) (m : Message) : Bool :=
  s.messages.rows.any fun c => m.carriedBy == some c.id && c.state == .delivering

/-- Words told to the window of a task just paused that still wait for it: they wait for the
    resume, and its requester hears which. -/
def keepWaiting (project number : Nat) (why : String) (except_ : Option Nat) :
    DeskM (List Nat) := inWrite do
  let task ← taskRow project number
  if task.state != .paused then pure []
  else do
    let s ← state
    let waiting := s.messages.rows.filter fun m => m.task == some task.id && m.told &&
      task.assignee == some m.recipient && (m.state == .queued || m.state == .gated) &&
      except_ != some m.id && !s.ridesOnItsWay m
    waiting.forM fun m => do
      setMessages (fun x => x.id == m.id && x.state == .queued)
        fun x => { x with reason := some s!"kept for T-{number}'s resume: {why}" }
      log project (.other "delivery.kept" (some m.id))
      tellKept task m why
    pure (waiting.map (·.id))

/-- ConsensFlow paused a task as its window went away: its requester is told, in the note of the
    stalls before it where that can take it, and of the words told to its window that wait. -/
def noteStall (project number : Nat) (because why : String) (harnessGone : Bool)
    (join except_ : Option Nat) : DeskM (Message × List Nat) := inWrite do
  let joined ← match join with
    | some id => joinPauseNote id number because harnessGone
    | none => pure none
  let note ← match joined with
    | some note => pure note
    | none => do
      let task ← taskRow project number
      let requester ← participantRow task.requester
      notePause project requester.handle number because harnessGone
  let kept ← keepWaiting project number why except_
  pure (note, kept)

/-! ## 3. Words told to a window that no window had -/

/-- The words told to the task's windows that no window ever had. As a window that leaves takes
    them (`leaving`), those on their way too. -/
def Ledger.unreceived (s : Ledger) (task : Task) (leaving : Bool) : List Message :=
  s.messages.rows.filter fun m => m.task == some task.id && m.told &&
    ((task.assignee == some m.recipient &&
        (if leaving then m.state == .queued || m.state == .gated || m.state == .delivering
         else (m.state == .queued || m.state == .gated) && !s.ridesOnItsWay m)) ||
      (m.state == .cancelled && m.reason == some (carriedIntoWords task.number) &&
        !(s.messages.rows.any fun b => b.task == some task.id && b.kind == .task && m.id < b.id &&
          ((!leaving && b.state == .delivering) || b.state == .delivered || b.state == .read))))

def senderOf (s : Ledger) (m : Message) : Option String := m.sender.map s.handleOf

/-- What tells `handle` which of its words went. -/
def saidTo (s : Ledger) (dropped : List Message) (handle : String) : String :=
  match (dropped.filter fun m => senderOf s m == some handle).map (·.id) with
  | [] => ""
  | [one] => s!" What you told its window, m-{one}, went with it: it never had it."
  | several =>
    let ids := mList (several.map fun (n : Nat) => (n : Int))
    s!" What you told its window, {ids}, went with it: it never had them."

/-- What tells which of the words wait for the task's reopen. -/
def waitingForTheReopen (s : Ledger) (told : List Message) (handle : Option String) : String :=
  let ids := (told.filter fun m => (m.state == .queued || m.state == .gated) &&
    (handle.isNone || senderOf s m == handle)).map fun m => (m.id : Int)
  if ids.isEmpty then "" else s!"; the words told its window wait for the reopen: {mList ids}"

/-- Tells each one who told these words, but those `told` already, in the words `body` has. -/
def tellEach (task : Task) (dropped : List Message) (told : List String)
    (body : Ledger → String → String) : DeskM Unit := do
  let s ← state
  let senders := ((dropped.filterMap (senderOf s)).filter fun h => !told.contains h).reverse.dedup.reverse
  senders.forM fun sender => do
    let _ ← sendNote task.project sender (some task.number) (body s sender)
    pure ()

/-- Tells each one who told words that went: `lead` says what became of the task. -/
def tellTheOthers (task : Task) (dropped : List Message) (lead : String) (told : List String) :
    DeskM Unit :=
  tellEach task dropped told fun s sender => lead ++ saidTo s dropped sender

/-- The told words for `window` about a task that is paused. -/
def Ledger.toldPaused (s : Ledger) (window : Nat) (m : Message) : Bool :=
  m.recipient == window && m.told &&
    s.tasks.rows.any fun t => m.task == some t.id && t.state == .paused

/-- The words told to `window` for its paused tasks, which a member's removal leaves kept. -/
def keptThroughLeaving (window : Nat) (why : String) : DeskM (List Nat) := do
  let s ← state
  let givenBack := s.messages.rows.filter fun m => s.toldPaused window m && m.state == .delivering
  givenBack.forM fun m => do
    let s ← state
    let number := ((m.task.bind s.tasks.get?).map (·.number)).getD 0
    keepForResume m.id number why
    log m.project (.other "delivery.kept" (some m.id))
  let s ← state
  setMessages (fun m => s.toldPaused window m && (m.state == .queued || m.state == .gated) &&
      s.messages.rows.any fun c => m.carriedBy == some c.id && c.recipient == window &&
        (c.state == .queued || c.state == .delivering || c.state == .gated))
    (fun m => { m with carriedBy := none, handedAt := none })
  let s ← state
  pure ((s.messages.rows.filter fun m =>
    s.toldPaused window m && (m.state == .queued || m.state == .gated)).map (·.id))

/-- A failed task's queued messages are never delivered, but the words told to its window. -/
def dropQueuedButTold (task : Nat) : DeskM Unit :=
  setMessages (fun m => m.task == some task && (m.state == .queued || m.state == .gated) && !m.told)
    fun m => m.to .cancelled

/-- A launch called off before its window opened: whoever told the words that rode in its first
    message hears that the window never had them. -/
def launchCalledOff (carrier : Nat) : DeskM Unit := inWrite do
  let s ← state
  match s.messages.get? carrier, ← messageTask carrier with
  | some message, some task =>
    if message.kind != .task || message.state != .cancelled || task.state != .cancelled then
      pure ()
    else
      let rode := s.messages.rows.filter fun m => m.task == some task.id && m.told &&
        m.state == .cancelled && (m.carriedBy == some carrier ||
          (m.reason == some (carriedIntoWords task.number) && m.id < carrier &&
            !(s.messages.rows.any fun b => b.task == some task.id && b.kind == .task &&
              m.id < b.id && (b.state == .delivered || b.state == .read))))
      tellTheOthers task rode s!"T-{task.number} was cancelled before its window opened." []
  | _, _ => pure ()

/-! ## 4. Holds, answers of paused windows, and answers that did not stand -/

/-- A held task went on: its requester, if it was given a note that said it waits, is told. -/
def tellGoesOn (task : Task) : DeskM Unit := do
  let s ← state
  let notes := s.messages.rows.filter fun m => m.task == some task.id &&
    m.recipient == task.requester && m.ownNote
  -- from the newest note that was given, backwards
  match notes.reverse.span fun m => !(isHoldNote task.number m.body &&
      (m.state == .delivering || m.state == .delivered || m.state == .read)) with
  | (_, []) => pure ()
  | (later, given :: _) => do
    let told := if endsWith holdTailMoved given.body then goesOnMoved task.number
      else goesOn task.number
    if (given :: later).any fun m => m.body == told then pure ()
    else do
      let requester ← participantRow task.requester
      let _ ← sendNote task.project requester.handle (some task.number) told
      pure ()

/-- Tells a task's requester what its window ended its turn on tell `tell` with, once. -/
def notePausedAnswer (project number : Nat) (handle : String) (tell : Nat) (reply : Option String)
    (words : String) : DeskM (Option Message) := inWrite do
  let task ← taskRow project number
  let s ← state
  if (s.answerNotes task fun _ => true).any fun n => n.2.tell == (tell : Int) then pure none
  else do
    let requester ← participantRow task.requester
    let next := if requester.role = .human then Next.human else Next.chief
    let then_ := if task.state = .paused then Then.paused next else .moved
    let sent ← sendNote project requester.handle (some number)
      (Answered.render { number, handle, tell, reply, words, then_ })
    pure (some sent)

/-- The notes queued again, as they were before the task's queued messages were dropped. -/
def putBackPausedAnswers (ids : List Nat) : LooseM Unit :=
  ids.forM fun id => setNoteLoosely id fun m => m.to .queued

/-- The task is finished with these words as its result: the notes not yet pasted are moot. -/
def withdrawPausedAnswers (task : Task) (why : String) : DeskM Unit := do
  let s ← state
  (s.answerNotes task fun m => m.state == .queued).forM fun (id, _) =>
    withdraw id s!"T-{task.number} {why}"

/-- The questions the window asked on a task that wait to be answered again. -/
def Ledger.toAnswerAgain (s : Ledger) (task window : Nat) : List Message :=
  s.messages.rows.filter fun q => q.task == some task && q.kind == .question &&
    q.sender == some window && !q.urgent &&
    (s.messages.rows.any fun a => a.replyTo == some q.id && a.kind == .answer &&
      (a.state == .cancelled || a.state == .failed)) &&
    !(s.messages.rows.any fun a => a.replyTo == some q.id && a.kind == .answer &&
      !(a.state == .cancelled || a.state == .failed))

def answerAgain (question : Nat) : String := s!"Answer it again: cf answer m-{question} \"…\""

/-- A note to whoever was asked a question: one who has left the project is not told. -/
def tellAgain (project : Nat) (asked task : Nat) (lead : String) (question : Nat) : DeskM Unit := do
  let asked ← participantRow asked
  if asked.leftAt.isSome then pure ()
  else do
    let _ ← sendNote project asked.handle (some task) s!"{lead} {answerAgain question}"
    pure ()

/-- A delivery of an answer was given up for good: whoever was asked is told. -/
def tellFailedAnswer (answer : Message) (task : Task) (why : String) : DeskM Unit :=
  match answer.replyTo with
  | none => pure ()
  | some question =>
    if !(task.state.held || task.state == .paused) then pure ()
    else do
      let s ← state
      (s.toAnswerAgain task.id answer.recipient).forM fun q =>
        if q.id = question then
          tellAgain answer.project q.recipient task.number
            s!"Your answer m-{answer.id} to m-{question} did not reach @{s.handleOf answer.recipient}: {why}."
            question
        else pure ()

/-- The task was sent back, and waits for the answers that did not stand. -/
def tellSentBack (task : Task) (window : Nat) (author : String) : DeskM Unit := do
  let s ← state
  (s.toAnswerAgain task.id window).forM fun q =>
    tellAgain task.project q.recipient task.number
      s!"T-{task.number} was sent back by @{author}, and m-{q.id} still waits for an answer: the one it had did not stand."
      q.id

end ConsensFlow
