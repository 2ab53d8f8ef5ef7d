/-
  File:      ConsensFlow/Mail.lean
  Subject:   A MESSAGE ON ITS WAY, AND OFF IT (`queue.rs`, `messages/carrying.rs`,
             `messages/continuations.rs`, `messages/told.rs`): how one is queued and joins the
             paste that waits for its window, what tells a window to go on, and what is
             withdrawn when it no longer applies.

  * `told`, `behindHeldWords` -- words told to a task's window, and the order they go in;
  * `Ledger.adopted`, `adopt` -- a kept row joins the newest task message that waits for its
    window, if no paste of that one has begun. The guard is in the write: `adopt` is a desk
    program by it;
  * `queue`, `send` -- every message starts here, held at the human's gate or not;
  * `continuationTasks` -- the notes that tell a window to go on, told by their words;
  * `releaseCarried`, `cancelMessage`, … -- what a withdrawn carrier carried is its own again.
-/
import ConsensFlow.Store

namespace ConsensFlow

open Lib Lib.Text Txn

/-- What a paused task's window is told when it goes on. -/
def resumeWords : String := "Go on where you stopped."

/-! ## 1. Words told to a window -/

/-- Told words: a note from a participant, never urgent. -/
def Message.told (m : Message) : Bool := m.kind == .note && m.sender.isSome && !m.urgent

/-- About the same task, for the same window. -/
def Message.alongside (o m : Message) : Bool :=
  m.task.isSome && o.task == m.task && o.recipient == m.recipient

/-- Told words behind older ones, told to the same window about its task, that the human still
    holds: told words go in the order they were told. -/
def Ledger.behindHeldWords (s : Ledger) (m : Message) : Bool :=
  m.told && s.messages.rows.any fun o =>
    o.alongside m && o.told && o.id < m.id && o.state == .gated

/-- `is_told`: told words to the window of their task, whose assignee has the handle given. -/
def Ledger.isTold (s : Ledger) (m : Message) (assignee : Option String) : Bool :=
  m.told && assignee == some (s.handleOf m.recipient)

/-- The kinds a window keeps. -/
def Kind.kept : Kind → Bool
  | task | answer | note => true
  | result | question => false

/-! ## 2. Joining the paste that waits -/

/-- Whether the log says that a paste of `c` began. -/
def Ledger.pasteBegun (s : Ledger) (c : Message) : Bool :=
  s.events.rows.any fun e => e.project == c.project && e.what == .deliveryBegun c.id

/-- The task message a kept row `m` may join: for its window, newer than it where it is a task
    message itself, waiting its first paste. -/
def Ledger.takesIn (s : Ledger) (m c : Message) : Bool :=
  c.alongside m && c.kind == .task && c.carriedBy.isNone &&
    (c.state == .queued || c.state == .gated) && c.id != m.id &&
    (m.kind != .task || m.id < c.id) && !s.pasteBegun c

/-- The newest task message that message `id` may join. -/
def Ledger.carrierFor (s : Ledger) (id : Nat) : Option (Message × Message) :=
  (s.messages.get? id).bind fun m =>
    if !m.urgent && m.state == .queued && m.carriedBy.isNone && m.kind.kept &&
        !s.behindHeldWords m then
      (s.messages.rows.filter (s.takesIn m)).getLast?.map fun c => (m, c)
    else none

/-- What rides in `c` from now on: the row, what it carries, and the words told after it that
    wait on their own and are held behind nothing. -/
def Ledger.joined (s : Ledger) (m c : Message) : Ledger :=
  let s1 := s.withMessages (fun x => x.id == m.id || x.carriedBy == some m.id)
    fun x => { x with carriedBy := some c.id }
  s1.withMessages
    (fun f => f.alongside m && m.id < f.id && f.state == .queued && f.carriedBy.isNone &&
      f.told && !s1.behindHeldWords f)
    fun x => { x with carriedBy := some c.id }

/-- A row that has just become kept joins the task message that waits for its window. -/
def Ledger.adopted (s : Ledger) (id : Nat) : Ledger :=
  match s.carrierFor id with
  | none => s
  | some (m, c) => s.joined m c

theorem not_begun_of_pasteBegun {s : Ledger} {c : Message} (hc : c ∈ s.messages.rows)
    (h : s.pasteBegun c = false) : ¬ s.Begun c.id := by
  rintro ⟨m, hm, e, x, hx, hp, hw⟩
  have hmc : m = c := Table.eq_of_key hm hc e
  subst hmc
  have := List.any_eq_false.mp h x hx
  simp [hp, hw] at this

theorem altered_stamp {p : Message → Bool} {f : Message → Message}
    (h : ∀ m, (f m).stamp = m.stamp) (m : Message) : (Table.altered p f m).stamp = m.stamp := by
  unfold Table.altered
  split
  · exact h m
  · rfl

/-- A row that may be put in the paste of `c`. -/
structure Ledger.Takes (s : Ledger) (hands : Nat → Prop) (c : Nat) (y : Message) : Prop where
  still : y.state ≠ .delivering
  own : y.kind = .task → y.Settled → y.Over
  rides : ¬ hands y.id → c < s.messages.next ∧ ∀ k ∈ s.messages.rows, k.id = c → s.Ride none y k

/-- A row put in the paste of `c`, of which nothing else changes that matters to what rides. -/
structure Message.PutIn (c : Nat) (y y' : Message) : Prop where
  carrier : y'.carriedBy = some c
  stamp : y'.stamp = y.stamp
  state : y'.state = y.state
  receipt : y'.receipt = y.receipt

section Carry

variable {s : Ledger} {p : Message → Bool} {f : Message → Message} {c : Nat} {y y' : Message}

theorem Message.PutIn.over (h : y.PutIn c y') (k : y.Over) : y'.Over := by
  unfold Message.Over Message.late at k ⊢
  rw [h.state, h.receipt, show y'.kind = y.kind from congrArg Stamp.kind h.stamp]
  exact k

/-- A row after the statement: as it was, or put in. -/
theorem altered_putIn (each : ∀ y : Message, y.PutIn c (f y)) (y : Message) :
    Table.altered p f y = y ∨ p y = true ∧ y.PutIn c (Table.altered p f y) := by
  unfold Table.altered
  split
  · next hp => exact .inr ⟨hp, (each y).carrier, (each y).stamp, (each y).state, (each y).receipt⟩
  · exact .inl rfl

/-- A row rides on in a carrier, whichever of the two is put into another. -/
theorem Ledger.Ride.putIn {aside : Option Nat} {x k : Message}
    (each : ∀ y : Message, y.PutIn c (f y)) (own : p k = true → k.kind = .task → k.Settled → k.Over)
    (h : s.Ride aside x k) :
    (s.withMessages p f).Ride aside (Table.altered p f x) (Table.altered p f k) := by
  have settled : k.Settled → (Table.altered p f k).Settled := by
    intro hk
    rcases altered_putIn (p := p) each k with e | ⟨hp, e⟩
    · rwa [e]
    · exact ⟨e.state ▸ hk.arrived, .inr (e.over (own hp h.kind hk))⟩
  have same (y : Message) : (Table.altered p f y).stamp = y.stamp ∧
      (Table.altered p f y).state = y.state ∧ (Table.altered p f y).receipt = y.receipt := by
    rcases altered_putIn (p := p) each y with e | ⟨-, e⟩
    · rw [e]
      exact ⟨rfl, rfl, rfl⟩
    · exact ⟨e.stamp, e.state, e.receipt⟩
  obtain ⟨sk, -, -⟩ := same k
  obtain ⟨sx, ex, rx⟩ := same x
  have recipient : (Table.altered p f x).recipient = x.recipient := congrArg Stamp.recipient sx
  refine ⟨(congrArg Stamp.kind sk).trans h.kind, ?_, ?_, ?_⟩
  · exact (congrArg Stamp.recipient sk).trans (h.whom.trans recipient.symm)
  · rw [show (Table.altered p f x).kind = x.kind from congrArg Stamp.kind sx]
    exact h.asked
  · have lies : (Table.altered p f x).Lies (k.Settled ∨ aside = some k.id)
        (s.Human x.recipient) := by
      have l := h.lies
      unfold Message.Lies Message.late at l ⊢
      rw [ex, rx]
      exact l
    refine lies.imp (Or.imp settled fun e => ?_) fun hu => ?_
    · exact e.trans (congrArg some (altered_message_id p f k).symm)
    · rw [recipient]
      exact hu

theorem riding_putIn {hands : Nat → Prop} (each : ∀ y : Message, y.PutIn c (f y)) (r : s.Riding hands)
    (takes : ∀ y ∈ s.messages.rows, p y = true → s.Takes hands c y) :
    (s.withMessages p f).Riding hands := by
  have own (k : Message) (hk : k ∈ s.messages.rows) (hp : p k = true) := (takes k hk hp).own
  refine ⟨fun x' hx' hs => ?_, fun x' hx' d hd hn => ?_⟩ <;>
    obtain ⟨x, hx, rfl⟩ := Table.mem_alter.mp hx' <;>
    rcases altered_putIn (p := p) each x with e | ⟨hp, e⟩
  · rw [e] at hs ⊢
    exact r.alone x hx hs
  · exact absurd (e.state ▸ hs) (takes x hx hp).still
  · rw [e] at hd hn
    obtain ⟨hlt, hr⟩ := r.rides x hx d hd hn
    refine ⟨hlt, fun k' hk' ek => ?_⟩
    obtain ⟨k, hk, rfl⟩ := Table.mem_alter.mp hk'
    exact (hr k hk ((altered_message_id p f k).symm.trans ek)).putIn each (own k hk)
  · have ec : c = d := Option.some.inj (e.carrier.symm.trans hd)
    subst ec
    obtain ⟨hlt, hr⟩ := (takes x hx hp).rides (altered_message_id p f x ▸ hn)
    refine ⟨hlt, fun k' hk' ek => ?_⟩
    obtain ⟨k, hk, rfl⟩ := Table.mem_alter.mp hk'
    exact (hr k hk ((altered_message_id p f k).symm.trans ek)).putIn each (own k hk)

theorem tight_putIn {x : Excuse} (each : ∀ y : Message, y.PutIn c (f y))
    (takes : ∀ hands : Nat → Prop, (∀ i d, x.joins i d → hands i) → s.Riding hands →
      ∀ y ∈ s.messages.rows, p y = true → s.Takes hands c y) :
    Tight x s (s.withMessages p f) := by
  refine ⟨fun m hm m' hm' e d _ _ _ ho => ?_, fun hands hj r =>
    riding_putIn each r (takes hands hj r)⟩
  obtain ⟨m0, hm0, rfl⟩ := Table.mem_alter.mp hm'
  have same : m0 = m := Table.eq_of_key hm0 hm ((altered_message_id p f m0).symm.trans e)
  subst same
  rcases altered_putIn (p := p) each m0 with e | ⟨-, e⟩
  · rwa [e]
  · exact e.over ho

end Carry

/-- A statement that puts rows in the carrier `c`, none of them held back, and changes nothing
    else of them. -/
theorem handled_carry {x : Excuse} {s : Ledger} {c : Nat} {p : Message → Bool} {m : Message}
    (h : s.Begun c → ∀ i, x.joins i c) (hp : p m = true → ¬ m.Shut) :
    Handled x s m (Table.altered p (fun y => { y with carriedBy := some c }) m) := by
  unfold Table.altered
  split
  · next hm =>
    refine ⟨rfl, fun d hd hb hx => ?_, fun _ _ hs => absurd hs (hp hm), fun _ _ => rfl⟩
    have e : c = d := by simpa [Keyed.rekey] using hd
    exact absurd (h (e ▸ hb) m.id) (e ▸ hx)
  · exact Handled.refl x s m

theorem desk_carry {x : Excuse} (s : Ledger) {p : Message → Bool} {c : Nat}
    (h : s.Begun c → ∀ i, x.joins i c) (hp : ∀ m ∈ s.messages.rows, p m = true → ¬ m.Shut)
    (takes : ¬ x.loose → ∀ hands : Nat → Prop, (∀ i d, x.joins i d → hands i) → s.Riding hands →
      ∀ y ∈ s.messages.rows, p y = true → s.Takes hands c y) :
    Desk x s (s.withMessages p fun y => { y with carriedBy := some c }) := by
  refine ⟨kept_withMessages s p _ (fun m hm => handled_carry h (hp m hm)) fun hl =>
    tight_putIn (fun _ => ⟨rfl, rfl, rfl, rfl⟩) (takes hl), board_withMessages s p _ fun m => ?_⟩
  unfold Table.altered
  split <;> rfl

theorem carrierFor_spec {s : Ledger} {id : Nat} {m c : Message}
    (h : s.carrierFor id = some (m, c)) :
    s.messages.get? id = some m ∧ c ∈ s.messages.rows ∧ s.takesIn m c = true ∧
      m.state = .queued ∧ m.carriedBy = none ∧ m.kind.kept = true ∧ m.urgent = false ∧
      s.behindHeldWords m = false := by
  unfold Ledger.carrierFor at h
  obtain ⟨m', hm', h⟩ := Option.bind_eq_some_iff.mp h
  split at h
  · next hg =>
    obtain ⟨c', hc', e⟩ := Option.map_eq_some_iff.mp h
    cases e
    have hmem := List.mem_filter.mp (List.mem_of_getLast? hc')
    simp only [Bool.and_eq_true, Bool.not_eq_true', beq_iff_eq, Option.isNone_iff_eq_none] at hg
    obtain ⟨⟨⟨⟨hu, hs⟩, hcar⟩, hk⟩, hb⟩ := hg
    exact ⟨hm', hmem.1, hmem.2, hs, hcar, hk, hu, hb⟩
  · cases h

section Takes

variable {s : Ledger} {hands : Nat → Prop} {c : Nat} {m y : Message}

/-- A row that waits may be put in the paste of a task message for its window. -/
theorem takes_queued (hq : y.state = .queued) (asked : y.kind ≠ .question)
    (lt : c < s.messages.next) (carrier : ∀ k ∈ s.messages.rows, k.id = c →
      k.kind = .task ∧ k.recipient = y.recipient) : s.Takes hands c y := by
  refine ⟨fun hs => ?_, fun _ k => ?_, fun _ => ⟨lt, fun k hk e => ?_⟩⟩
  · rw [hq] at hs
    cases hs
  · refine absurd ?_ k.arrived
    rw [hq]
    trivial
  · obtain ⟨kind, whom⟩ := carrier k hk e
    refine ⟨kind, whom, asked, ?_⟩
    unfold Message.Lies
    rw [hq]
    trivial

/-- A row that waits, or is withdrawn, may be put in a paste by hand. -/
theorem takes_byHand (hs : y.state = .queued ∨ y.state = .cancelled) (h : hands y.id) :
    s.Takes hands c y := by
  refine ⟨fun e => ?_, fun task k => ?_, fun hn => absurd h hn⟩
  · rw [e] at hs
    rcases hs with hs | hs <;> cases hs
  · rcases hs with hs | hs
    · refine absurd ?_ k.arrived
      rw [hs]
      trivial
    · refine ⟨?_, ?_⟩
      · rw [task]
        exact fun e => by cases e
      · rw [hs]
        trivial

/-- So may a row that rides in one that waits. -/
theorem takes_moved (r : s.Riding hands) (hm : m ∈ s.messages.rows) (hq : m.state = .queued)
    (hy : y ∈ s.messages.rows) (hc : y.carriedBy = some m.id) (lt : c < s.messages.next)
    (carrier : ∀ k ∈ s.messages.rows, k.id = c → k.kind = .task ∧ k.recipient = m.recipient) :
    s.Takes hands c y := by
  refine ⟨fun hs => ?_, fun _ k => ?_, fun hn => ⟨lt, fun k hk e => ?_⟩⟩
  · rw [r.alone y hy hs] at hc
    cases hc
  · exact k.own.resolve_left (by rw [hc]; exact Option.some_ne_none _)
  · obtain ⟨kind, whom⟩ := carrier k hk e
    obtain ⟨-, whom', asked, lies⟩ := (r.rides y hy m.id hc hn).2 m hm rfl
    refine ⟨kind, whom.trans whom', asked, lies.imp (fun settled => ?_) id⟩
    refine settled.elim (fun k => absurd ?_ k.arrived) fun e => by cases e
    rw [hq]
    trivial

end Takes

theorem desk_adopted (s : Ledger) (id : Nat) : Desk .none s (s.adopted id) := by
  unfold Ledger.adopted
  split
  · exact Frame.refl s
  · next m c h =>
    obtain ⟨hm, hc, ht, hq, -, hk, -⟩ := carrierFor_spec h
    obtain ⟨hmm, -⟩ := Table.get?_eq_some.mp hm
    simp only [Ledger.takesIn, Message.alongside, Bool.and_eq_true, Bool.not_eq_true',
      beq_iff_eq] at ht
    obtain ⟨⟨⟨⟨⟨⟨⟨-, hw⟩, hkind⟩, -⟩, -⟩, -⟩, -⟩, hnb⟩ := ht
    have hn := not_begun_of_pasteBegun hc hnb
    have lt : c.id < s.messages.next := s.messages.below c hc
    have carrier : ∀ k ∈ s.messages.rows, k.id = c.id →
        k.kind = .task ∧ k.recipient = m.recipient := by
      intro k hk e
      rw [Table.eq_of_key hk hc e]
      exact ⟨hkind, hw⟩
    have asked : m.kind ≠ .question := by
      intro e
      rw [e] at hk
      cases hk
    have hs : ∀ y ∈ s.messages.rows, (y.id == m.id || y.carriedBy == some m.id) = true →
        ¬ y.Shut := by
      intro y hy hp
      rcases Bool.or_eq_true_iff.mp hp with e | e
      · have : y = m := Table.eq_of_key hy hmm (beq_iff_eq.mp e)
        exact Message.not_shut_of_queued (this ▸ hq)
      · exact fun k => absurd (k.alone.symm.trans (beq_iff_eq.mp e)) (by simp)
    have d1 := desk_carry (x := .none) s (fun hb => absurd hb hn) hs fun _ hands _ r y hy hp => by
      rcases Bool.or_eq_true_iff.mp hp with e | e
      · rw [Table.eq_of_key hy hmm (beq_iff_eq.mp e)]
        exact takes_queued hq asked lt carrier
      · exact takes_moved r hmm hq hy (beq_iff_eq.mp e) lt carrier
    unfold Ledger.joined
    refine Frame.trans d1 (desk_carry _ (fun hb => absurd ?_ hn) (fun y _ hp => ?_)
      fun _ hands _ r y hy hp => ?_)
    case refine_2 =>
      simp only [Bool.and_eq_true, beq_iff_eq] at hp
      exact Message.not_shut_of_queued hp.1.1.1.2
    case refine_3 =>
      simp only [Message.alongside, Message.told, Bool.and_eq_true, beq_iff_eq] at hp
      obtain ⟨⟨⟨⟨⟨⟨-, whom⟩, -⟩, queued⟩, -⟩, ⟨note, -⟩, -⟩, -⟩ := hp
      have asked : y.kind ≠ .question := by
        intro e
        rw [note] at e
        cases e
      refine takes_queued queued asked lt fun k hk e => ?_
      obtain ⟨k0, hk0, rfl⟩ := Table.mem_alter.mp hk
      obtain ⟨kind, whom'⟩ := carrier k0 hk0 ((altered_message_id _ _ k0).symm.trans e)
      have stamp := altered_stamp (p := fun x => x.id == m.id || x.carriedBy == some m.id)
        (f := fun x => { x with carriedBy := some c.id }) (fun _ => rfl) k0
      exact ⟨(congrArg Stamp.kind stamp).trans kind,
        (congrArg Stamp.recipient stamp).trans (whom'.trans whom.symm)⟩
    -- the first statement wrote no event, so the second finds the carrier as unbegun
    obtain ⟨y, hy, e, z, hz, hp, hw⟩ := hb
    obtain ⟨y0, hy0, e0, hs0⟩ := d1.old y hy (by
      rw [e]
      exact s.messages.below c hc)
    exact ⟨y0, hy0, e0.trans e, z, hz, hp.trans (congrArg Stamp.project hs0.stamp), hw⟩

def adopt (id : Nat) : DeskM Unit := write (fun s => s.adopted id) (fun s => desk_adopted s id)

/-! ## 3. Queueing -/

/-- A message to queue. -/
structure Queued where
  whom : Nat
  sender : Option Nat := none
  kind : Kind
  task : Option Nat := none
  replyTo : Option Nat := none
  body : String
  fromWindow : Bool := false
  doorClosed : Bool := false
  questions : Option (List Question) := none
  choices : Option (List (List String)) := none
  urgent : Bool := false
  role : Option String := none

/-- Whether the project's gate holds a message: one agent's word to another, when the human
    approves every hand-off. -/
def gateHolds (project : Nat) (sender : Option Nat) (whom : Nat) : DeskM Bool :=
  match sender with
  | none => pure false
  | some f =>
    if f = whom then pure false
    else do
      let p ← projectRow project
      if !p.gate then pure false
      else do
        let a ← participantRow f
        if a.role = .human then pure false
        else do
          let b ← participantRow whom
          pure (b.role != .human)

/-- The message as it lands: queued, read at once when the asker's own window gave it, or held
    at the gate. -/
def Queued.row (q : Queued) (project : Nat) (landing : MessageState) (t : Time) : Message where
  project
  recipient := q.whom
  sender := q.sender
  kind := q.kind
  task := q.task
  replyTo := q.replyTo
  body := q.body
  state := landing
  questions := q.questions
  choices := q.choices
  urgent := q.urgent
  createdAt := t
  deliveredAt := if landing = .read then some t else none
  receipt := if landing = .read then some { proof := "\x7b\"window\":true\x7d" } else none
  doorClosedAt := if q.doorClosed then some t else none
  roleText := q.role

def Queued.landing (q : Queued) (gated : Bool) : MessageState :=
  if gated then .gated else if q.fromWindow then .read else .queued

/-- A program over the ledger, held to nothing. -/
abbrev RawM := LedgerTxn fun _ _ => True

instance : Frame (fun _ _ : Ledger => True) := ⟨fun _ => trivial, fun _ _ => trivial⟩

instance : MonadLift DeskM RawM := ⟨fun m => Txn.lift (fun _ _ _ => trivial) m⟩

/-- `queue`'s own write: the message as it lands, its id and its landing. -/
def queueRow (project : Nat) (q : Queued) : RawM (Nat × MessageState) := do
  let gated ← gateHolds project q.sender q.whom
  let t ← now
  let s ← state
  write (fun s => { s with messages := s.messages.insert (q.row project (q.landing gated) t) })
    (fun _ => trivial)
  pure (s.messages.next, q.landing gated)

/-- What the gate decides: a message it does not hold is none it is for. -/
theorem gateHolds_ok {project : Nat} {sender : Option Nat} {whom : Nat} {s s' : Ledger} {g : Bool}
    (h : (gateHolds project sender whom).run s = .ok (g, s')) :
    s' = s ∧ (g = false → ∀ m : Message, m.project = project → m.sender = sender →
      m.recipient = whom → ¬ s.GateFor m) := by
  unfold gateHolds at h
  split at h
  · obtain ⟨-, rfl⟩ := run_pure_ok.mp h
    refine ⟨rfl, fun _ m _ hs _ hg => ?_⟩
    obtain ⟨a, ha, -⟩ := hg.sender
    rw [hs] at ha
    cases ha
  · next f =>
    split at h
    · next e =>
      obtain ⟨-, rfl⟩ := run_pure_ok.mp h
      refine ⟨rfl, fun _ m _ hs hr hg => ?_⟩
      obtain ⟨a, ha, hne, -⟩ := hg.sender
      rw [hs] at ha
      cases ha
      exact hne (e.trans hr.symm)
    · simp only [projectRow, participantRow, run_bind_ok, run_state_ok, run_found_ok] at h
      obtain ⟨p, s1, ⟨s0, s2, ⟨rfl, rfl⟩, hp, rfl⟩, h⟩ := h
      obtain ⟨hpm, hpk⟩ := Table.get?_eq_some.mp hp
      split at h
      · next hoff =>
        obtain ⟨-, rfl⟩ := run_pure_ok.mp h
        refine ⟨rfl, fun _ m hm _ _ hg => hg.on ⟨p, hpm, hpk.trans hm.symm, by simpa using hoff⟩⟩
      · simp only [run_bind_ok, run_state_ok, run_found_ok] at h
        obtain ⟨a, s1, ⟨s0, s2, ⟨rfl, rfl⟩, ha, rfl⟩, h⟩ := h
        obtain ⟨ham, hak⟩ := Table.get?_eq_some.mp ha
        split at h
        · next hh =>
          obtain ⟨-, rfl⟩ := run_pure_ok.mp h
          refine ⟨rfl, fun _ m _ hs _ hg => ?_⟩
          obtain ⟨i, hi, -, hn⟩ := hg.sender
          rw [hs] at hi
          cases hi
          exact hn ⟨a, ham, hak, hh⟩
        · simp only [run_bind_ok, run_state_ok, run_found_ok, run_pure_ok] at h
          obtain ⟨b, s1, ⟨s0, s2, ⟨rfl, rfl⟩, hb, rfl⟩, hg, rfl⟩ := h
          obtain ⟨hbm, hbk⟩ := Table.get?_eq_some.mp hb
          refine ⟨rfl, fun hf m _ _ hr hk => hk.recipient ⟨b, hbm, hbk.trans hr.symm, ?_⟩⟩
          rw [hf] at hg
          simpa using hg

/-- The board with one more brief. -/
def Board.brief (b : Board) (task : Option Nat) (window : Nat) : Board :=
  { b with briefs := b.briefs ++ (task.map fun t => (t, window)).toList }

/-- A new message rides in nothing. -/
theorem tight_inserted {x : Excuse} {s s' : Ledger} {row : Message} (alone : row.carriedBy = none)
    (e : s' = { s with messages := s.messages.insert row }) : Tight x s s' := by
  subst e
  have old {m : Message} (hm : m ∈ s.messages.rows) : m.id ≠ s.messages.next :=
    Nat.ne_of_lt (s.messages.below m hm)
  refine ⟨fun m hm m' hm' e c hc _ _ ho => ?_, fun hands _ r => ⟨fun m hm hs => ?_,
    fun m hm d hd hn => ?_⟩⟩ <;> rcases Table.mem_insert.mp (by assumption) with h | rfl
  · rwa [Table.eq_of_key h hm e]
  · exact absurd e.symm (old hm)
  · exact r.alone m h hs
  · exact alone
  · obtain ⟨hlt, hr⟩ := r.rides m h d hd hn
    refine ⟨Nat.lt_succ_of_lt hlt, fun k hk e => ?_⟩
    rcases Table.mem_insert.mp hk with hk | rfl
    · exact (hr k hk e).on fun _ h => h
    · exact absurd e (Nat.ne_of_gt hlt)
  · rw [show (Keyed.rekey s.messages.next row).carriedBy = none from alone] at hd
    cases hd

theorem queueRow_ok {project : Nat} {q : Queued} {s s' : Ledger} {r : Nat × MessageState}
    (h : (queueRow project q).run s = .ok (r, s')) :
    r.1 = s.messages.next ∧ Kept .none s s' ∧
      s'.board = if q.kind = .task then s.board.brief q.task q.whom else s.board := by
  obtain ⟨g, s1, h1, h⟩ := run_bind_ok.mp h
  obtain ⟨t, s2, h2, h⟩ := run_bind_ok.mp h
  simp only [run_bind_ok, run_state_ok, run_write_ok, run_pure_ok] at h
  obtain ⟨a, b, ⟨rfl, rfl⟩, u, d, rfl, rfl, rfl⟩ := h
  obtain ⟨rfl, hg⟩ := gateHolds_ok h1
  have d2 : Desk .none s1 s2 := now.within h2
  have e2 : s2 = s1.ticked := by
    replace h2 : now.run s1 = .ok (t, s2) := h2
    simp only [now, run_bind_ok, run_state_ok, run_write_ok, run_pure_ok] at h2
    obtain ⟨a, b, ⟨rfl, rfl⟩, u, d, rfl, -, rfl⟩ := h2
    rfl
  subst e2
  let row := q.row project (q.landing g) t
  let s' : Ledger := { s1.ticked with messages := s1.messages.insert row }
  have hk : Kept .none s1.ticked s' := by
    refine ⟨List.prefix_refl _, Nat.le_succ _, fun m hm => ?_, fun m hm hlt => ?_,
      fun m hm hle => ?_, fun _ h => h, fun _ _ h => h, fun _ => tight_inserted rfl rfl⟩
    · exact ⟨m, Table.mem_insert.mpr (Or.inl hm), rfl⟩
    · rcases Table.mem_insert.mp hm with hm | rfl
      · exact ⟨m, hm, rfl, Handled.refl _ _ m⟩
      · exact absurd hlt (Nat.lt_irrefl _)
    · rcases Table.mem_insert.mp hm with hm | rfl
      · exact absurd (s1.messages.below m hm) (Nat.not_lt_of_le hle)
      · refine ⟨fun c hc => (Option.some_ne_none c hc.symm).elim, fun _ _ hgf => ?_⟩
        cases g with
        | true => exact ⟨Or.inl rfl, rfl⟩
        | false =>
          have hn := hg rfl (Keyed.rekey s1.messages.next row) rfl rfl rfl
          exact absurd ⟨hgf.on, hgf.sender, hgf.recipient⟩ hn
  refine ⟨rfl, d2.toKept.trans hk, ?_⟩
  have eb : s'.messages.rows.filterMap Message.brief =
      s1.messages.rows.filterMap Message.brief ++ (row.brief).toList := by
    show (s1.messages.rows ++ [Keyed.rekey s1.messages.next row]).filterMap Message.brief = _
    rw [List.filterMap_append]
    have : (Keyed.rekey s1.messages.next row).brief = row.brief := rfl
    cases hr : row.brief <;> simp [this, hr]
  show ({ s1.board with briefs := s'.messages.rows.filterMap Message.brief } : Board) = _
  rw [eb]
  split
  · next hq =>
    have : row.brief = q.task.map fun t => (t, q.whom) := if_pos hq
    rw [this]
    rfl
  · next hq =>
    have : row.brief = none := if_neg hq
    rw [this]
    show ({ s1.board with briefs := s1.board.briefs ++ [] } : Board) = s1.board
    rw [List.append_nil]

theorem queueRow_row {project : Nat} {q : Queued} {s s' : Ledger} {r : Nat × MessageState}
    (h : (queueRow project q).run s = .ok (r, s')) :
    ∃ m ∈ s'.messages.rows, m.id = r.1 ∧ m.kind = q.kind ∧ m.recipient = q.whom := by
  obtain ⟨g, s1, h1, h⟩ := run_bind_ok.mp h
  obtain ⟨t, s2, h2, h⟩ := run_bind_ok.mp h
  simp only [run_bind_ok, run_state_ok, run_write_ok, run_pure_ok] at h
  obtain ⟨a, b, ⟨rfl, rfl⟩, u, d, rfl, rfl, rfl⟩ := h
  exact ⟨_, Table.mem_insert.mpr (Or.inr rfl), rfl, rfl, rfl⟩

/-- Writes a message on its way, no brief: its id. -/
def queue (project : Nat) (q : Queued) (h : (q.kind != .task) = true := by exact (rfl : true = true)) : DeskM Nat := do
  let (id, landing) ← narrow (queueRow project q) fun hr => by
    obtain ⟨-, hk, hb⟩ := queueRow_ok hr
    exact ⟨hk, hb.trans (if_neg (by simpa using h))⟩
  doWhen (landing == .queued && (q.kind == .answer || q.kind == .note)) (adopt id)
  pure id

/-- `queue`, of a task message: a brief, or the words that send a window on. -/
def queueTask (project : Nat) (q : Queued) : LedgerM Nat := do
  let (id, _) ← narrow (queueRow project { q with kind := .task }) fun hr => (queueRow_ok hr).2.1
  pure id

theorem queueTask_ok {project : Nat} {q : Queued} {s s' : Ledger} {id : Nat}
    (h : (queueTask project q).run s = .ok (id, s')) :
    id = s.messages.next ∧ s'.board = s.board.brief q.task q.whom := by
  obtain ⟨r, s1, h1, h⟩ := run_bind_ok.mp h
  obtain ⟨rfl, rfl⟩ := run_pure_ok.mp h
  obtain ⟨e, -, hb⟩ := queueRow_ok (q := { q with kind := .task }) h1
  exact ⟨e, hb⟩

theorem queueTask_row {project : Nat} {q : Queued} {s s' : Ledger} {id : Nat}
    (h : (queueTask project q).run s = .ok (id, s')) :
    ∃ m ∈ s'.messages.rows, m.id = id ∧ m.kind = .task ∧ m.recipient = q.whom := by
  obtain ⟨r, s1, h1, h⟩ := run_bind_ok.mp h
  obtain ⟨rfl, rfl⟩ := run_pure_ok.mp h
  exact queueRow_row (q := { q with kind := .task }) h1

/-- A message to send by handle. -/
structure Sent where
  sender : Option String := none
  whom : String
  body : String
  task : Option Nat := none
  kind : Kind := .note
  questions : Option (List Question) := none
  urgent : Bool := false
  doorClosed : Bool := false
  role : Option String := none

/-- The log of a message sent. -/
def logSent (project id : Nat) : DeskM Unit := log project (.other "message.sent" (some id))

/-- Queues a message by handle, and logs it. -/
def send (project : Nat) (m : Sent) (h : (m.kind != .task) = true := by exact (rfl : true = true)) :
    DeskM Message := do
  requireText m.body "body" maxBody
  inWrite do
    let sender ← match m.sender with
      | some h => some <$> participantByHandle project h
      | none => pure none
    let recipient ← participantByHandle project m.whom
    let task ← match m.task with
      | some n => (fun t => some t.id) <$> taskRow project n
      | none => pure none
    let id ← queue project
      { whom := recipient.id, sender := sender.map (·.id), kind := m.kind, task, body := m.body,
        questions := m.questions, urgent := m.urgent, doorClosed := m.doorClosed, role := m.role }
      h
    logSent project id
    knownMessage id

/-- ConsensFlow's own note to a handle. -/
def sendNote (project : Nat) (whom : String) (task : Option Nat) (body : String) : DeskM Message :=
  send project { whom, task, body }

end ConsensFlow
