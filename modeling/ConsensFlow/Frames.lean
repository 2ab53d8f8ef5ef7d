/-
  File:      ConsensFlow/Frames.lean
  Subject:   WHAT A WRITE KEEPS, BY ITS TYPE: the relations the ledger's programs are held
             to, and the monads that hold them.

  * `Phase`, `Card`, `Board` -- the tasks as the board shows them: on the board, in hand, paused,
    or over. The moves between `queued`, `working` and `waiting` (`reconcile`) leave a card as
    it is;
  * `Handled`, `Fresh` -- what a write keeps of a message that was there, and what holds of one it
    wrote: its stamp stands, it joins no carrier whose paste has begun, what the human's gate
    holds stays held, and the words a participant wrote stand;
  * `Message.Over`, `Ledger.Riding` -- what a row may be that rides in another's paste: it waits, or
    it is over, or it arrived with a carrier that is settled;
  * `Excuse` -- the messages and projects a program may do more to: a carrier that rows may join,
    a message that may pass the gate, one whose words may change; or a program that is held to
    nothing of what rides;
  * `Tight x` -- what is over for its paste stays over, and what rides stays one that may;
  * `Kept x` -- the log only grows, no message goes, and each is handled so, but for the excuses;
  * `Desk x` -- besides, the board stays as it is: what is written is the mail on its desk;
  * `LedgerM`, `DeskM`, `ExcusedM x` -- the programs of each. A function's type says which.
-/
import ConsensFlow.Model

namespace ConsensFlow

open Lib

/-! ## 1. The board's view of a task -/

/-- Where a task is on the board. A paused one goes on by itself at a time, or with its project,
    or neither. -/
inductive Phase where
  | opened
  | held
  | paused (until_ withProject : Bool)
  | done
  | accepted
  | failed
  | cancelled
  deriving DecidableEq, Repr

/-- A task as the board shows it. -/
structure Card where
  id : Nat
  project : Nat
  number : Nat
  requester : Nat
  assignee : Option Nat
  phase : Phase
  pool : Option Role
  deleted : Bool
  stops : Nat
  deriving DecidableEq, Repr

/-- The phase of a task in a state, held until a time or not, paused with its project or not. -/
def TaskState.phase (until_ : Option String) (withProject : Bool) : TaskState → Phase
  | opened => .opened
  | queued | working | waiting => .held
  | paused => .paused until_.isSome withProject
  | done => .done
  | accepted => .accepted
  | failed => .failed
  | cancelled => .cancelled

def Task.card (t : Task) : Card where
  id := t.id
  project := t.project
  number := t.number
  requester := t.requester
  assignee := t.assignee
  phase := t.state.phase t.heldUntil t.pausedWithProject
  pool := t.pool
  deleted := t.deletedAt.isSome
  stops := t.stopSeq

/-- The task and the window of a task message: its brief, or the words that send it on. -/
def Message.brief (m : Message) : Option (Nat × Nat) :=
  if m.kind = .task then m.task.map fun t => (t, m.recipient) else none

/-- The board: the projects and their staff, the plan, every card, what was ever written to a
    window to begin or go on with a task, and the tasks the log says are stranded, or were asked to
    stop, each by its project and number, as often as it says. -/
structure Board where
  projects : Table Project
  participants : Table Participant
  needs : List (Nat × Nat)
  cards : List Card
  briefs : List (Nat × Nat)
  strandings : List (Nat × Nat)
  asked : List (Nat × Nat)

def What.stranded : What → Option Nat
  | .taskStranded n => some n
  | _ => none

/-- The task a pause asked to stop, in the words of its move to paused. -/
def What.asked : What → Option Nat
  | .taskState n _ .paused d => if d.stop.isSome then some n else none
  | _ => none

/-- An event that neither says of a task that it is stranded, nor that it was asked to stop. -/
structure What.Quiet (w : What) : Prop where
  stranded : w.stranded = none
  asked : w.asked = none

namespace Ledger

def board (s : Ledger) : Board where
  projects := s.projects
  participants := s.participants
  needs := s.needs
  cards := s.tasks.rows.map Task.card
  briefs := s.messages.rows.filterMap Message.brief
  strandings := s.events.rows.filterMap fun e => e.what.stranded.map fun n => (e.project, n)
  asked := s.events.rows.filterMap fun e => e.what.asked.map fun n => (e.project, n)

/-- Whether the log of its project says that a paste of message `c` began. -/
def Begun (s : Ledger) (c : Nat) : Prop :=
  ∃ m ∈ s.messages.rows, m.id = c ∧
    ∃ e ∈ s.events.rows, e.project = m.project ∧ e.what = .deliveryBegun c

end Ledger

/-! ## 2. What a write keeps of a message -/

/-- The columns of a message that no write changes. -/
structure Stamp where
  project : Nat
  recipient : Nat
  sender : Option Nat
  kind : Kind
  replyTo : Option Nat
  urgent : Bool
  createdAt : Time

def Message.stamp (m : Message) : Stamp :=
  ⟨m.project, m.recipient, m.sender, m.kind, m.replyTo, m.urgent, m.createdAt⟩

/-- Held at the human's gate, or withdrawn, and in no paste. -/
structure Message.Shut (m : Message) : Prop where
  state : m.state = .gated ∨ m.state = .cancelled
  alone : m.carriedBy = none

/-- What a program may do beyond the rule: the rows that may join a carrier though its paste has
    begun, the messages that may pass the gate, those whose words may change, and the
    projects whose gate may be set; `loose`, whether it is held to nothing of what rides. -/
structure Excuse where
  joins : Nat → Nat → Prop := fun _ _ => False
  opens : Nat → Prop := fun _ => False
  rewrites : Nat → Prop := fun _ => False
  regates : Nat → Prop := fun _ => False
  loose : Prop := False

/-- No excuse. -/
def Excuse.none : Excuse := {}

/-- What a write keeps of a message. -/
structure Handled (x : Excuse) (s : Ledger) (m m' : Message) : Prop where
  stamp : m'.stamp = m.stamp
  unjoined : ∀ c, m'.carriedBy = some c → s.Begun c → ¬ x.joins m.id c → m.carriedBy = some c
  shut : m.sender.isSome = true → ¬ x.opens m.id → m.Shut → m'.Shut
  words : m.sender.isSome = true → ¬ x.rewrites m.id → m'.body = m.body

namespace Ledger

/-- Whether the gate of a project is off. -/
def GateOff (s : Ledger) (project : Nat) : Prop :=
  ∃ p ∈ s.projects.rows, p.id = project ∧ p.gate = false

/-- Whether a participant is the human. -/
def Human (s : Ledger) (id : Nat) : Prop := ∃ p ∈ s.participants.rows, p.id = id ∧ p.role = .human

/-- A message the gate is for: one agent's word to another, in a project whose gate is on. -/
structure GateFor (s : Ledger) (m : Message) : Prop where
  on : ¬ s.GateOff m.project
  sender : ∃ a, m.sender = some a ∧ a ≠ m.recipient ∧ ¬ s.Human a
  recipient : ¬ s.Human m.recipient

end Ledger

/-- What holds of a message a write made. -/
structure Fresh (x : Excuse) (s s' : Ledger) (m : Message) : Prop where
  unjoined : ∀ c, m.carriedBy = some c → s.Begun c → x.joins m.id c
  landed : ¬ x.opens m.id → ¬ x.regates m.project → s'.GateFor m → m.Shut

/-! ## 3. What rides in a paste -/

/-- On its way to its window, or still to come. -/
def MessageState.Pending : MessageState → Prop
  | queued | gated | delivering => True
  | delivered | read | failed | cancelled => False

/-- Delivered though it was withdrawn: its paste had been handed over. -/
def Message.late (m : Message) : Bool := m.receipt.any fun r => r.cancelled.isSome

/-- Over for the paste it rides in: withdrawn, failed, read with a proof, or delivered late. A
    question never is, which its answer's decline opens again. -/
def Message.Over (m : Message) : Prop :=
  m.kind ≠ .question ∧ match m.state with
    | .cancelled | .failed => True
    | .read => m.receipt.isSome = true
    | .delivered => m.late = true
    | .queued | .gated | .delivering => False

/-- Neither on its way nor to be again: it rides in no paste that may be taken back, or is over
    for it. -/
structure Message.Settled (m : Message) : Prop where
  arrived : ¬ m.state.Pending
  own : m.carriedBy = none ∨ m.Over

/-- What a row that rides in a paste may be, whose carrier is `settled` or not, and whose
    recipient is the `human` or not. -/
def Message.Lies (m : Message) (settled human : Prop) : Prop :=
  match m.state with
  | .queued | .cancelled | .failed => True
  | .read => m.receipt.isSome = true ∨ human
  | .delivered => m.receipt.isSome = true ∧ (m.late = true ∨ settled)
  | .gated | .delivering => False

theorem Message.Lies.imp {m : Message} {p q p' q' : Prop} (h : m.Lies p q) (hp : p → p')
    (hq : q → q') : m.Lies p' q' := by
  unfold Message.Lies at h ⊢
  split at h
  · trivial
  · trivial
  · trivial
  · exact h.imp_right hq
  · exact ⟨h.1, h.2.imp_right hp⟩
  · exact h
  · exact h

/-- A row in the paste of a task message for its window. `aside`, a carrier on its way whose
    rows arrived already. -/
structure Ledger.Ride (s : Ledger) (aside : Option Nat) (x c : Message) : Prop where
  kind : c.kind = .task
  whom : c.recipient = x.recipient
  asked : x.kind ≠ .question
  lies : x.Lies (c.Settled ∨ aside = some c.id) (s.Human x.recipient)

/-- What is on its way rides in nothing, and each row that rides, but for those named in
    `hands`, is in the paste of such a carrier. -/
structure Ledger.Riding (s : Ledger) (hands : Nat → Prop) (aside : Option Nat := none) : Prop where
  alone : ∀ x ∈ s.messages.rows, x.state = .delivering → x.carriedBy = none
  rides : ∀ x ∈ s.messages.rows, ∀ d, x.carriedBy = some d → ¬ hands x.id →
    d < s.messages.next ∧ ∀ c ∈ s.messages.rows, c.id = d → s.Ride aside x c

/-- What is over for a paste that has begun stays over while it rides in it. -/
def Ledger.Ends (x : Excuse) (s s' : Ledger) : Prop :=
  ∀ m ∈ s.messages.rows, ∀ m' ∈ s'.messages.rows, m'.id = m.id → ∀ c,
    m'.carriedBy = some c → s.Begun c → ¬ x.joins m.id c → m.Over → m'.Over

/-- That, and what rides stays what may. -/
structure Tight (x : Excuse) (s s' : Ledger) : Prop where
  ended : s.Ends x s'
  riding : ∀ hands : Nat → Prop, (∀ i c, x.joins i c → hands i) → s.Riding hands → s'.Riding hands

/-! ## 4. The relations -/

/-- The log grows, no message goes, each is handled as it should be, who the human is and which
    gates are off stands, and what rides is held to its rule. -/
structure Kept (x : Excuse) (s s' : Ledger) : Prop where
  log : s.events.rows <+: s'.events.rows
  ids : s.messages.next ≤ s'.messages.next
  stay : ∀ m ∈ s.messages.rows, ∃ m' ∈ s'.messages.rows, m'.id = m.id
  old : ∀ m' ∈ s'.messages.rows, m'.id < s.messages.next →
    ∃ m ∈ s.messages.rows, m.id = m'.id ∧ Handled x s m m'
  fresh : ∀ m' ∈ s'.messages.rows, s.messages.next ≤ m'.id → Fresh x s s' m'
  human : ∀ i, s.Human i → s'.Human i
  gate : ∀ p, ¬ x.regates p → s.GateOff p → s'.GateOff p
  tight : ¬ x.loose → Tight x s s'

/-- Only the mail is written. -/
structure Desk (x : Excuse) (s s' : Ledger) : Prop extends Kept x s s' where
  board : s'.board = s.board

section Kept

variable {x : Excuse} {s s' a b c : Ledger}

/-- A message of the first state, as it is in the last. -/
theorem Kept.later (h : Kept x s s') {m : Message} (hm : m ∈ s.messages.rows) :
    ∃ m' ∈ s'.messages.rows, m'.id = m.id ∧ Handled x s m m' := by
  obtain ⟨m', hm', e⟩ := h.stay m hm
  have hlt : m'.id < s.messages.next := by
    rw [e]
    exact s.messages.below m hm
  obtain ⟨m0, hm0, e0, hs⟩ := h.old m' hm' hlt
  have : m0 = m := Table.eq_of_key hm0 hm (e0.trans e)
  exact ⟨m', hm', e, this ▸ hs⟩

theorem Kept.begun (h : Kept x s s') {c : Nat} (hb : s.Begun c) : s'.Begun c := by
  obtain ⟨m, hm, rfl, e, he, hp, hw⟩ := hb
  obtain ⟨m', hm', e', hs⟩ := h.later hm
  refine ⟨m', hm', e', e, h.log.subset he, ?_, hw⟩
  rw [hp]
  exact (congrArg Stamp.project hs.stamp).symm

theorem Handled.refl (x : Excuse) (s : Ledger) (m : Message) : Handled x s m m :=
  ⟨rfl, fun _ hc _ _ => hc, fun _ _ h => h, fun _ _ => rfl⟩

theorem Handled.trans {m n k : Message} (hab : Kept x a b) (e : n.id = m.id)
    (h : Handled x a m n) (h' : Handled x b n k) : Handled x a m k := by
  have es : n.sender = m.sender := congrArg Stamp.sender h.stamp
  refine ⟨h'.stamp.trans h.stamp, fun d hd hb hx => ?_, fun hs ho hm => ?_, fun hs hr => ?_⟩
  · exact h.unjoined d (h'.unjoined d hd (hab.begun hb) (e ▸ hx)) hb hx
  · exact h'.shut (es ▸ hs) (e ▸ ho) (h.shut hs ho hm)
  · exact (h'.words (es ▸ hs) (e ▸ hr)).trans (h.words hs hr)

/-- A message the gate is for in the last state was one it is for in the first. -/
theorem Kept.gateFor (h : Kept x s s') {m m' : Message} (e : m'.stamp = m.stamp)
    (hx : ¬ x.regates m.project) (hg : s'.GateFor m') : s.GateFor m := by
  have ep : m'.project = m.project := congrArg Stamp.project e
  have er : m'.recipient = m.recipient := congrArg Stamp.recipient e
  have es : m'.sender = m.sender := congrArg Stamp.sender e
  obtain ⟨a, ha, hne, hh⟩ := hg.sender
  refine ⟨fun ho => hg.on ?_, ⟨a, es ▸ ha, er ▸ hne, fun k => hh (h.human a k)⟩, fun k => ?_⟩
  · rw [ep]
    exact h.gate _ hx ho
  · exact hg.recipient (er ▸ h.human _ k)

theorem Fresh.carried_on {m n : Message} (hab : Kept x a b) (hbc : Kept x b c) (e : m.id = n.id)
    (h : Fresh x a b m) (h' : Handled x b m n) : Fresh x a c n := by
  have ep : n.project = m.project := congrArg Stamp.project h'.stamp
  have es : n.sender = m.sender := congrArg Stamp.sender h'.stamp
  refine ⟨fun d hd hb => ?_, fun ho hr hg => ?_⟩
  · by_contra hx
    exact hx (e ▸ h.unjoined d (h'.unjoined d hd (hab.begun hb) (e ▸ hx)) hb)
  · have hg' : b.GateFor m := hbc.gateFor h'.stamp (ep ▸ hr) hg
    have hs : m.sender.isSome = true := by
      obtain ⟨i, hi, -⟩ := hg'.sender
      rw [hi]
      rfl
    exact h'.shut hs (e ▸ ho) (h.landed (e ▸ ho) (ep ▸ hr) hg')

/-- What is over in the first state is in the last. -/
theorem Ledger.Ends.trans (h : Kept x a b) (k : Kept x b c) (ha : a.Ends x b) (hb : b.Ends x c) :
    a.Ends x c := by
  intro m hm n hn e d hd begun hx ho
  obtain ⟨m1, hm1, e1, -⟩ := h.later hm
  have hlt : n.id < b.messages.next := by
    rw [e, ← e1]
    exact b.messages.below m1 hm1
  obtain ⟨m2, hm2, e2, f⟩ := k.old n hn hlt
  have same : m2 = m1 := Table.eq_of_key hm2 hm1 (e2.trans (e.trans e1.symm))
  subst same
  have hd1 : m2.carriedBy = some d := f.unjoined d hd (h.begun begun) (e1 ▸ hx)
  exact hb m2 hm1 n hn e2.symm d hd (h.begun begun) (e1 ▸ hx) (ha m hm m2 hm1 e1 d hd1 begun hx ho)

theorem Tight.trans (h : Kept x a b) (k : Kept x b c) (ht : Tight x a b) (kt : Tight x b c) :
    Tight x a c :=
  ⟨ht.ended.trans h k kt.ended, fun hands hj r => kt.riding hands hj (ht.riding hands hj r)⟩

theorem Kept.trans (h : Kept x a b) (k : Kept x b c) : Kept x a c := by
  refine ⟨h.log.trans k.log, Nat.le_trans h.ids k.ids, fun m hm => ?_, fun m hm hlt => ?_,
    fun m hm hle => ?_, fun i hi => k.human i (h.human i hi),
    fun p hx hp => k.gate p hx (h.gate p hx hp), fun hl => (h.tight hl).trans h k (k.tight hl)⟩
  · obtain ⟨m1, hm1, e1⟩ := h.stay m hm
    obtain ⟨m2, hm2, e2⟩ := k.stay m1 hm1
    exact ⟨m2, hm2, e2.trans e1⟩
  · obtain ⟨m1, hm1, e1, f1⟩ := k.old m hm (Nat.lt_of_lt_of_le hlt h.ids)
    obtain ⟨m2, hm2, e2, f2⟩ := h.old m1 hm1 (e1 ▸ hlt)
    exact ⟨m2, hm2, e2.trans e1, f2.trans h e2.symm f1⟩
  · rcases Nat.lt_or_ge m.id b.messages.next with hlt | hge
    · obtain ⟨m1, hm1, e1, f1⟩ := k.old m hm hlt
      exact (h.fresh m1 hm1 (e1 ▸ hle)).carried_on h k e1 f1
    · have f := k.fresh m hm hge
      exact ⟨fun d hd hb => f.unjoined d hd (h.begun hb), f.landed⟩

theorem Ledger.Ride.on {aside : Option Nat} {m k : Message} (h : s.Ride aside m k)
    (hh : ∀ i, s.Human i → s'.Human i) : s'.Ride aside m k :=
  ⟨h.kind, h.whom, h.asked, h.lies.imp id (hh _)⟩

theorem Ledger.Riding.of_eq {hands : Nat → Prop} {aside : Option Nat} (h : s.Riding hands aside)
    (hm : s'.messages = s.messages) (hh : ∀ i, s.Human i → s'.Human i) : s'.Riding hands aside := by
  refine ⟨fun m hx => ?_, fun m hx d hd hn => ?_⟩ <;> rw [hm] at hx
  · exact h.alone m hx
  · rw [hm]
    obtain ⟨hlt, hr⟩ := h.rides m hx d hd hn
    exact ⟨hlt, fun k hk e => (hr k hk e).on hh⟩

/-- The mail is as it was. -/
theorem Tight.of_eq (hm : s'.messages = s.messages) (hh : ∀ i, s.Human i → s'.Human i) :
    Tight x s s' := by
  refine ⟨fun m h m' h' e _ _ _ _ ho => ?_, fun hands _ r => r.of_eq hm hh⟩
  rw [hm] at h'
  exact Table.eq_of_key h' h e ▸ ho

/-- What is not the mail's, nor the log's, nor the gate's was written. -/
theorem Kept.of_eq (he : s'.events = s.events) (hm : s'.messages = s.messages)
    (hh : ∀ i, s.Human i → s'.Human i) (hg : ∀ p, ¬ x.regates p → s.GateOff p → s'.GateOff p) :
    Kept x s s' := by
  refine ⟨?_, ?_, fun m h => ?_, fun m h _ => ?_, fun m h hle => ?_, hh, hg,
    fun _ => .of_eq hm hh⟩
  · exact he ▸ List.prefix_refl _
  · exact hm ▸ Nat.le_refl _
  · exact ⟨m, hm ▸ h, rfl⟩
  · exact ⟨m, hm ▸ h, rfl, Handled.refl x s m⟩
  · exact absurd (s.messages.below m (hm ▸ h)) (Nat.not_lt_of_le hle)

theorem Kept.refl (x : Excuse) (s : Ledger) : Kept x s s :=
  Kept.of_eq rfl rfl (fun _ h => h) (fun _ _ h => h)

/-- A program that needs no excuse may be given any. -/
theorem Kept.excused (h : Kept .none s s') (x : Excuse) : Kept x s s' := by
  refine ⟨h.log, h.ids, h.stay, fun m hm hlt => ?_, fun m hm hle => ?_, h.human,
    fun p _ => h.gate p id, fun _ => ?_⟩
  · obtain ⟨m0, hm0, e, f⟩ := h.old m hm hlt
    exact ⟨m0, hm0, e, f.stamp, fun c hc hb _ => f.unjoined c hc hb id, fun hs _ => f.shut hs id,
      fun hs _ => f.words hs id⟩
  · have f := h.fresh m hm hle
    exact ⟨fun c hc hb => (f.unjoined c hc hb).elim, fun _ _ => f.landed id id⟩
  · have t := h.tight id
    exact ⟨fun m hm m' hm' e c hc hb _ => t.ended m hm m' hm' e c hc hb id,
      fun hands _ => t.riding hands fun _ _ => False.elim⟩

/-- A program held to nothing of what rides that keeps to it all the same. -/
theorem Kept.tightened (h : Kept { x with loose := True } s s') (t : Tight x s s') :
    Kept x s s' := by
  refine ⟨h.log, h.ids, h.stay, fun m hm hlt => ?_, fun m hm hle => ?_, h.human, h.gate, fun _ => t⟩
  · obtain ⟨m0, hm0, e, f⟩ := h.old m hm hlt
    exact ⟨m0, hm0, e, f.stamp, f.unjoined, f.shut, f.words⟩
  · have f := h.fresh m hm hle
    exact ⟨f.unjoined, f.landed⟩

/-- A program held to its rule may be held to less. -/
theorem Kept.loosened (h : Kept x s s') : Kept { x with loose := True } s s' := by
  refine ⟨h.log, h.ids, h.stay, fun m hm hlt => ?_, fun m hm hle => ?_, h.human, h.gate,
    fun k => absurd trivial k⟩
  · obtain ⟨m0, hm0, e, f⟩ := h.old m hm hlt
    exact ⟨m0, hm0, e, f.stamp, f.unjoined, f.shut, f.words⟩
  · have f := h.fresh m hm hle
    exact ⟨f.unjoined, f.landed⟩

end Kept

instance (x : Excuse) : Frame (Kept x) := ⟨Kept.refl x, Kept.trans⟩

instance (x : Excuse) : Frame (Desk x) where
  refl s := ⟨Kept.refl x s, rfl⟩
  trans h k := ⟨h.toKept.trans k.toKept, k.board.trans h.board⟩

-- the frames of the excuses that are written out, each by a name of its own
instance Desk.loose : Frame (Desk { loose := True }) := inferInstance

instance Desk.opened (id : Nat) : Frame (Desk { opens := (· = id) }) := inferInstance

theorem Desk.excused {s s' : Ledger} (h : Desk .none s s') (x : Excuse) : Desk x s s' :=
  ⟨h.toKept.excused x, h.board⟩

theorem Desk.tightened {x : Excuse} {s s' : Ledger} (h : Desk { x with loose := True } s s')
    (t : Tight x s s') : Desk x s s' := ⟨h.toKept.tightened t, h.board⟩

theorem Desk.loosened {x : Excuse} {s s' : Ledger} (h : Desk x s s') :
    Desk { x with loose := True } s s' := ⟨h.toKept.loosened, h.board⟩

/-! ## 5. The monads -/

abbrev LedgerTxn (R : Ledger → Ledger → Prop) := Txn Ledger LedgerError R

/-- A program over the ledger, held to the rules. -/
abbrev LedgerM := LedgerTxn (Kept .none)

/-- A program that writes the mail and nothing else of the board. -/
abbrev DeskM := LedgerTxn (Desk .none)

/-- A program that writes the mail, with an excuse. -/
abbrev ExcusedM (x : Excuse) := LedgerTxn (Desk x)

/-- A program that writes the mail, and may let messages join the carrier `c`. -/
abbrev FoldM (c : Nat) := ExcusedM { joins := fun _ d => d = c }

/-- A program that writes the mail, held to nothing of what rides. -/
abbrev LooseM := ExcusedM { loose := True }

/-- Such a program that keeps to it all the same. -/
def tightenIn {α : Type} (x : Excuse) (m : ExcusedM { x with loose := True } α)
    (h : ∀ {s a s'}, m.run s = .ok (a, s') → Tight x s s') : ExcusedM x α :=
  Txn.narrow m fun hr => (m.within hr).tightened (h hr)

@[simp] theorem run_tightenIn {α : Type} {x : Excuse} {m : ExcusedM { x with loose := True } α}
    {h : ∀ {s a s'}, m.run s = .ok (a, s') → Tight x s s'} (s : Ledger) :
    (tightenIn x m h).run s = m.run s := rfl

abbrev tighten {α : Type} (m : LooseM α)
    (h : ∀ {s a s'}, m.run s = .ok (a, s') → Tight .none s s') : DeskM α := tightenIn .none m h

instance : MonadLift DeskM LedgerM := ⟨fun m => Txn.lift (fun _ _ h => h.toKept) m⟩

instance (x : Excuse) : MonadLift DeskM (ExcusedM x) :=
  ⟨fun m => Txn.lift (fun _ _ h => h.excused x) m⟩

@[simp] theorem run_liftDesk {α : Type} (m : DeskM α) (s : Ledger) :
    (liftM m : LedgerM α).run s = m.run s := rfl

theorem run_lifted {α : Type} {x : Excuse} (m : DeskM α) (s : Ledger) :
    (liftM m : ExcusedM x α).run s = m.run s := rfl

theorem lifted_within {α : Type} {x : Excuse} {m : DeskM α} {a : α} {s s' : Ledger}
    (h : (liftM m : ExcusedM x α).run s = .ok (a, s')) : Desk .none s s' := m.within h

end ConsensFlow
