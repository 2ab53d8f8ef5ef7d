/-
  File:      ConsensFlow/Carrying.lean
  Subject:   ROWS THAT RIDE IN ANOTHER'S PASTE (`messages/carrying.rs`).

  * `fold` -- a resume's or a reopening's words take in everything their window keeps. It may
    let rows join its one carrier, and no other: its type says so;
  * **`queueCarrier`** -- the words are queued and folded in one step, as both callers do. The
    carrier is new, so no paste of it has begun: the two together need no excuse;
  * `transfer` -- what a window that is gone kept goes into the task's next brief, once;
  * `releaseStranded`, `reconcileReleased` -- what a start lets go of, and settles.
-/
import ConsensFlow.Moves

namespace ConsensFlow

open Lib Lib.Text Txn

/-! ## 1. Folding -/

/-- Marked read the moment a choice answer was written, with no proof, since `task` was last
    paused. -/
def Task.unreceivedRead (task : Task) (recipient : Nat) (m : Message) : Bool :=
  match task.pausedAt with
  | none => false
  | some pausedAt => m.task == some task.id && m.recipient == recipient &&
      m.kind == .answer && m.state == .read && m.receipt.isNone && pausedAt ≤ m.createdAt

theorem unreceivedRead_ok {task : Task} {recipient : Nat} {m : Message}
    (h : task.unreceivedRead recipient m = true) : m.kind = .answer ∧ m.receipt = none := by
  unfold Task.unreceivedRead at h
  split at h
  · cases h
  · simp only [Bool.and_eq_true, beq_iff_eq, Option.isNone_iff_eq_none] at h
    exact ⟨h.1.1.1.2, h.1.2⟩

/-- Those are kept for `recipient` again: their ids. -/
def requeueUnreceivedReads (task : Task) (recipient : Nat) : DeskM (List Nat) := do
  let s ← state
  setMessagesIn .read (task.unreceivedRead recipient) (fun m => m.to .queued)
    (k := fun m hs hp _ => by
      obtain ⟨answer, noProof⟩ := unreceivedRead_ok hp
      exact .again answer hs noProof rfl)
  pure ((s.messages.rows.filter (task.unreceivedRead recipient)).map (·.id))

/-- The rows of one task for one window that a carrier may take in. -/
def Message.keptFor (m : Message) (task recipient : Nat) : Bool :=
  m.task == some task && m.recipient == recipient && !m.urgent && m.kind.kept &&
    m.state == .queued

/-- The older carriers that say only what the daemon says when it resumes a hold. -/
def Ledger.superseded (s : Ledger) (task recipient carrier : Nat) : List Message :=
  s.messages.rows.filter fun m => m.task == some task && m.recipient == recipient &&
    m.kind == .task && m.state == .queued && m.carriedBy.isNone && m.id != carrier &&
    m.body == s!"Resumed: {resumeWords}"

/-- The rows `fold` takes into `carrier`: what is kept, in no paste on its way, and not behind
    words the human still holds. -/
def Ledger.takesUp (s : Ledger) (task recipient carrier : Nat) (m : Message) : Bool :=
  m.keptFor task recipient && m.id != carrier && !s.behindHeldWords m &&
    (m.carriedBy.isNone || s.messages.rows.any fun c =>
      m.carriedBy == some c.id && c.state != .delivering)

/-- `UPDATE message SET carried_by = ? WHERE …`, of rows that are queued. -/
def carryInto (carrier : Nat) (p : Message → Bool)
    (h : ∀ m, p m = true → m.state = .queued) : FoldM carrier Unit :=
  write (fun s => s.withMessages p fun m => { m with carriedBy := some carrier })
    fun s => desk_carry s (fun _ _ => rfl) (fun m _ hp => Message.not_shut_of_queued (h m hp))
      fun _ _ hj _ m _ hp => takes_byHand (.inl (h m hp)) (hj m.id carrier rfl)

/-- Takes into `carrier`, the task message just queued for `recipient`, everything its window
    keeps about `task`. -/
def fold (task : Task) (recipient carrier : Nat) : FoldM carrier Unit := do
  let requeued ← requeueUnreceivedReads task recipient
  let s ← state
  let superseded := (s.superseded task.id recipient carrier).map (·.id)
  superseded.forM fun id => do
    let _ ← cancelMessage id s!"superseded by m-{carrier}"
    pure ()
  let s ← state
  let taken := s.messages.rows.filter (s.takesUp task.id recipient carrier)
  carryInto carrier (s.takesUp task.id recipient carrier) (by
    intro m hm
    simp only [Ledger.takesUp, Message.keptFor, Bool.and_eq_true, beq_iff_eq] at hm
    exact hm.1.1.1.2)
  doWhen (!(taken.isEmpty && superseded.isEmpty && requeued.isEmpty))
    (log task.project (.other "message.carried" (some carrier)))

theorem not_begun_of_next_le {s : Ledger} {id : Nat} (h : s.messages.next ≤ id) : ¬ s.Begun id := by
  rintro ⟨m, hm, rfl, -⟩
  exact absurd (s.messages.below m hm) (Nat.not_lt_of_le h)

/-- Rows may join a carrier that is new: no paste of it has begun. -/
theorem Kept.join_new {s s1 s' : Ledger} {i : Nat} (h : Kept .none s s1)
    (k : Kept { joins := fun _ d => d = i } s1 s') (hi : s.messages.next ≤ i)
    (r : ∀ hands, s1.Riding hands → s'.Riding hands) : Kept .none s s' := by
  have hk := (h.excused { joins := fun _ d => d = i }).trans k
  have hn := not_begun_of_next_le hi
  refine ⟨hk.log, hk.ids, hk.stay, fun m hm hlt => ?_, fun m hm hle => ?_, hk.human,
    fun p _ => hk.gate p id, fun _ => ⟨fun m hm m' hm' e c hc hb _ => ?_, fun hands hj k =>
      r hands ((h.tight id).riding hands hj k)⟩⟩
  · obtain ⟨m0, hm0, e, f⟩ := hk.old m hm hlt
    refine ⟨m0, hm0, e, f.stamp, fun c hc hb _ => f.unjoined c hc hb ?_, f.shut, f.words⟩
    exact fun e => hn (e ▸ hb)
  · have f := hk.fresh m hm hle
    refine ⟨fun c hc hb => ?_, f.landed⟩
    have e : c = i := f.unjoined c hc hb
    exact absurd (e ▸ hb) hn
  · exact (hk.tight id).ended m hm m' hm' e c hc hb fun e => hn (e ▸ hb)

/-- What is taken into a task message for the window of what it takes rides as what may. -/
theorem fold_riding {task : Task} {window carrier : Nat} {s s' : Ledger} {u : Unit}
    (h : (fold task window carrier).run s = .ok (u, s'))
    (there : ∃ m ∈ s.messages.rows, m.id = carrier ∧ m.kind = .task ∧ m.recipient = window)
    {hands : Nat → Prop} (r : s.Riding hands) : s'.Riding hands := by
  obtain ⟨requeued, s1, h1, h⟩ := run_bind_ok.mp h
  have k1 : Kept .none s s1 := ((requeueUnreceivedReads task window).within h1).toKept
  obtain ⟨s2, s3, h2, h⟩ := run_bind_ok.mp h
  obtain ⟨rfl, rfl⟩ := run_state_ok.mp h2
  obtain ⟨u4, s4, h4, h⟩ := run_bind_ok.mp h
  have k4 : Kept .none s1 s4 := by
    refine run_forM_ok (P := Kept .none) (Kept.refl .none) Kept.trans (fun id _ a b hr => ?_) h4
    obtain ⟨m, c, hc, hr⟩ := run_bind_ok.mp hr
    obtain ⟨-, rfl⟩ := run_pure_ok.mp hr
    exact (lifted_within hc).toKept
  obtain ⟨s5, s6, h5, h⟩ := run_bind_ok.mp h
  obtain ⟨rfl, rfl⟩ := run_state_ok.mp h5
  obtain ⟨u7, s7, h7, h⟩ := run_bind_ok.mp h
  have k := k1.trans k4
  obtain ⟨m, hm, em, kind, whom⟩ := there
  obtain ⟨m4, hm4, e4, f4⟩ := k.later hm
  have taken : s7.Riding hands := by
    rw [← run_write_ok.mp h7]
    refine riding_putIn (fun _ => ⟨rfl, rfl, rfl, rfl⟩) ((k.tight id).riding hands
      (fun _ _ => False.elim) r) fun y _ hp => ?_
    simp only [Ledger.takesUp, Message.keptFor, Bool.and_eq_true, beq_iff_eq] at hp
    obtain ⟨⟨⟨⟨⟨⟨⟨-, whom'⟩, -⟩, kept⟩, queued⟩, -⟩, -⟩, -⟩ := hp
    have asked : y.kind ≠ .question := by
      intro e
      rw [e] at kept
      cases kept
    refine takes_queued queued asked ?_ fun k hk e => ?_
    · rw [← em, ← e4]
      exact s4.messages.below m4 hm4
    · rw [Table.eq_of_key hk hm4 (e.trans (em.symm.trans e4.symm))]
      exact ⟨(congrArg Stamp.kind f4.stamp).trans kind,
        (congrArg Stamp.recipient f4.stamp).trans (whom.trans whom'.symm)⟩
  rcases run_doWhen_ok.mp h with ⟨-, h⟩ | ⟨-, rfl⟩
  · have k8 : Kept .none s7 s' :=
      ((log task.project (.other "message.carried" (some carrier))).within h).toKept
    exact (k8.tight id).riding hands (fun _ _ => False.elim) taken
  · exact taken

/-- Queueing a carrier and folding into it. -/
def queueThenFold (project : Nat) (q : Queued) (task : Task) : RawM Nat := do
  let id ← lift (fun _ _ _ => trivial) (queueTask project q)
  lift (fun _ _ _ => trivial) (fold task q.whom id)
  pure id

theorem queueThenFold_ok {project : Nat} {q : Queued} {task : Task} {s s' : Ledger} {id : Nat}
    (h : (queueThenFold project q task).run s = .ok (id, s')) :
    Kept .none s s' ∧ s'.board = s.board.brief q.task q.whom := by
  obtain ⟨i, s1, h1, h⟩ := run_bind_ok.mp h
  obtain ⟨u, s2, h2, h⟩ := run_bind_ok.mp h
  obtain ⟨rfl, rfl⟩ := run_pure_ok.mp h
  have k1 : Kept .none s s1 := (queueTask project q).within h1
  have k2 : Desk { joins := fun _ d => d = i } s1 s2 := (fold task q.whom i).within h2
  obtain ⟨hi, hb⟩ := queueTask_ok h1
  exact ⟨k1.join_new k2.toKept (Nat.le_of_eq hi.symm) fun _ => fold_riding h2 (queueTask_row h1),
    k2.board.trans hb⟩

/-- **The words that send a window on, with what it keeps**: queued, and folded. -/
def queueCarrier (project : Nat) (q : Queued) (task : Task) : LedgerM Nat :=
  narrow (queueThenFold project q task) fun h => (queueThenFold_ok h).1

theorem queueCarrier_board {project : Nat} {q : Queued} {task : Task} {s s' : Ledger} {id : Nat}
    (h : (queueCarrier project q task).run s = .ok (id, s')) :
    s'.board = s.board.brief q.task q.whom := (queueThenFold_ok h).2

/-! ## 2. A task goes to another window -/

/-- Why a row a window kept went no further. -/
def carriedIntoWords (number : Nat) : String :=
  s!"carried into T-{number}'s brief for its next window"

/-- The label a kept row is said under, in the next brief. -/
def Ledger.keptLabel (s : Ledger) (window : Participant) (m : Message) : String :=
  let sender := match m.sender with
    | none => "ConsensFlow"
    | some p => s!"@{s.handleOf p}"
  match m.kind, m.replyTo with
  | .answer, some question =>
    let asked := match s.messages.get? question with
      | none => ""
      | some q => utf16Prefix (String.ofList (q.body.toList.takeWhile (· != '\n'))) 160
    s!"(answer m-{m.id} from {sender} to m-{question} of @{window.handle}: {asked})"
  | kind, _ => s!"({kind.word} m-{m.id} from {sender})"

/-- What the task takes on from a window that is gone: the words kept for it, as a section of
    its next brief, and the rows it still held at the gate. -/
structure Transfer where
  kept : String
  gated : List Nat

/-- A row kept for the window or being pasted to it: what the transfer says in the brief. -/
def Message.transferable (m : Message) (task window : Nat) : Bool :=
  m.task == some task && m.recipient == window && !m.urgent && m.kind.kept &&
    (m.state == .queued || m.state == .delivering)

def transfer (task : Task) (window : Participant) (brief : String) : DeskM Transfer := do
  dropContinuations task window.id
  let _ ← requeueUnreceivedReads task window.id
  let s ← state
  let rows := (s.messages.rows.filter fun m => m.transferable task.id window.id).filter fun m =>
    !(m.kind == .task && m.body == brief)
  let said := "".intercalate (rows.map fun m => s!"\n\n{s.keptLabel window m}\n{m.body}")
  let kept := if said.isEmpty then said else
    s!"\n\nKept from before, never delivered to @{window.handle}:{said}"
  setMessages (fun m => m.transferable task.id window.id)
    fun m => { m.to .cancelled with reason := some (carriedIntoWords task.number) }
  let s ← state
  let gated := s.messages.rows.filter fun m =>
    m.task == some task.id && m.recipient == window.id && m.state == .gated
  setMessages (fun m => m.task == some task.id && m.recipient == window.id &&
      (m.state == .queued || m.state == .delivering || m.state == .gated))
    fun m => { m.to .cancelled with
      reason := some s!"withdrawn: @{window.handle}'s window ended first" }
  setMessages (fun m => m.task == some task.id && m.sender == some window.id &&
      m.kind == .question && !m.urgent && (m.state == .queued || m.state == .gated))
    fun m => { m.to .cancelled with
      reason := some s!"@{window.handle} no longer has T-{task.number}" }
  pure { kept, gated := gated.map (·.id) }

/-! ## 3. What a start lets go of -/

/-- The carriers that are over with a row queued under them, each with the project of its row. -/
def Ledger.strandedCarriers (s : Ledger) : List (Nat × Nat) :=
  (s.messages.rows.filterMap fun m =>
    if m.state == .queued then
      m.carriedBy.bind fun c => (s.messages.get? c).bind fun k =>
        if k.state == .queued || k.state == .gated || k.state == .delivering then none
        else some (c, m.project)
    else none).dedup.insertionSort fun a b => a.1 ≤ b.1

/-- What rode in a carrier that is over is an ordinary queued message again. -/
def releaseStranded : DeskM Unit := inWrite do
  let s ← state
  s.strandedCarriers.forM fun (carrier, project) => do
    let s ← state
    let released := (s.carried carrier).map (·.id)
    setMessages (fun m => m.carriedBy == some carrier && m.state == .queued)
      (fun m => { m with carriedBy := none, handedAt := none })
    log project (.messageUncarried carrier released)
    withdrawStaleAmong released

/-- The lets-go the log does not say are reconciled. -/
def Ledger.unreconciled (s : Ledger) : List (Event × List Nat) :=
  let settled := s.events.rows.flatMap fun e => match e.what with
    | .messageReconciled u => u
    | _ => []
  s.events.rows.filterMap fun e => match e.what with
    | .messageUncarried _ released => if settled.contains e.id then none else some (e, released)
    | _ => none

/-- The tasks of the rows `released` that wait still, on their own. -/
def Ledger.tasksOfReleased (s : Ledger) (released : List Nat) : List Nat :=
  ((released.filterMap fun id => (s.messages.get? id).bind fun m =>
    if m.state == .queued && m.carriedBy.isNone then m.task else none).dedup).insertionSort (· ≤ ·)

/-- The tasks of what was let go of and not yet reconciled, reconciled once each. -/
def reconcileReleased : DeskM Unit := inWrite do
  let s ← state
  let unreconciled := s.unreconciled
  unreconciled.forM fun (_, released) => do
    let s ← state
    (s.tasksOfReleased released).forM reconcile
  let projects := ((unreconciled.map fun e => e.1.project).dedup).insertionSort (· ≤ ·)
  projects.forM fun project =>
    log project (.messageReconciled
      ((unreconciled.filter fun e => e.1.project == project).map fun e => e.1.id))

end ConsensFlow
