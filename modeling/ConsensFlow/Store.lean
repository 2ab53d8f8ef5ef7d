/-
  File:      ConsensFlow/Store.lean
  Subject:   WHAT EVERY CONCERN SHARES (`store.rs`, `model.rs`): the clock, the event log, the
             statements each table is written with, and the rows looked up by id or handle.

  A lookup is a program of any frame: it writes nothing, and its lemma (`taskRow_ok`, …) says what
  it found where it succeeded. A statement's type says what it may touch: `setMessages` is the
  desk's, `setLoosely` too but for what rides, `updateTask` is the board's and is held to the
  schema's check on a task with no assignee.
-/
import ConsensFlow.Frames
import ConsensFlow.Lib.Text

namespace ConsensFlow

open Lib Lib.Text Txn

/-! ## 1. The clock and the log -/

/-- The ledger with the clock read once: the last reading stays. -/
def Ledger.ticked (s : Ledger) : Ledger :=
  { s with readings := match s.readings with
    | [] => []
    | [t] => [t]
    | _ :: ts => ts }

theorem desk_ticked (s : Ledger) : Desk .none s s.ticked :=
  ⟨Kept.of_eq rfl rfl (fun _ h => h) (fun _ _ h => h), rfl⟩

/-- `Store::at`: the time now, one reading of the clock. -/
def now : DeskM Time := do
  let s ← state
  write Ledger.ticked desk_ticked
  pure (s.readings.headD 0)

theorem now_messages {s s' : Ledger} {t : Time} (h : (now : DeskM Time).run s = .ok (t, s')) :
    s'.messages = s.messages := by
  simp only [now, run_bind_ok, run_state_ok, run_write_ok, run_pure_ok] at h
  obtain ⟨s0, s1, ⟨rfl, rfl⟩, u1, s3, rfl, -, rfl⟩ := h
  rfl

/-- The ledger with one more event. -/
def Ledger.logged (s : Ledger) (e : Event) : Ledger := { s with events := s.events.insert e }

theorem kept_logged (s : Ledger) (e : Event) : Kept .none s (s.logged e) :=
  ⟨⟨[_], rfl⟩, Nat.le_refl _, fun m hm => ⟨m, hm, rfl⟩,
    fun m hm _ => ⟨m, hm, rfl, Handled.refl _ s m⟩,
    fun m hm hle => absurd (s.messages.below m hm) (Nat.not_lt_of_le hle),
    fun _ h => h, fun _ _ h => h, fun _ => .of_eq rfl fun _ h => h⟩

theorem desk_logged (s : Ledger) (e : Event) (h : e.what.Quiet) :
    Desk .none s (s.logged e) := by
  refine ⟨kept_logged s e, ?_⟩
  unfold Ledger.board Ledger.logged Table.insert
  simp [Keyed.rekey, h.stranded, h.asked]

/-- `Store::log`: an event of the project. -/
def log (project : Nat) (what : What) (h : what.Quiet := by exact ⟨rfl, rfl⟩) :
    DeskM Unit := do
  let t ← now
  write (fun s => s.logged { project, at_ := t, what }) (fun s => desk_logged s _ h)

theorem log_messages {s s' : Ledger} {project : Nat} {what : What} {u : Unit} (hs : what.Quiet)
    (h : (log project what hs).run s = .ok (u, s')) : s'.messages = s.messages := by
  simp only [log, now, run_bind_ok, run_state_ok, run_write_ok, run_pure_ok] at h
  obtain ⟨t, s1, ⟨s0, s2, ⟨rfl, rfl⟩, u1, s3, rfl, -, rfl⟩, rfl⟩ := h
  rfl

theorem log_logged {s s' : Ledger} {project : Nat} {what : What} {u : Unit} (hs : what.Quiet)
    (h : (log project what hs).run s = .ok (u, s')) :
    ∃ e ∈ s'.events.rows, e.project = project ∧ e.what = what := by
  simp only [log, now, run_bind_ok, run_state_ok, run_write_ok, run_pure_ok] at h
  obtain ⟨t, s1, ⟨s0, s2, ⟨rfl, rfl⟩, u1, s3, rfl, -, rfl⟩, rfl⟩ := h
  exact ⟨_, Table.mem_insert.mpr (Or.inr rfl), rfl, rfl⟩

/-- `Store::log`, of a task that moves, or is stranded. -/
def logOf (project : Nat) (what : What) : LedgerM Unit := do
  let t ← now
  write (fun s => s.logged { project, at_ := t, what }) (fun s => kept_logged s _)

/-- `Store::log`, of a task that is stranded. -/
def logStranded (project number : Nat) : LedgerM Unit := logOf project (.taskStranded number)

/-! ## 2. Statements on messages -/

/-- A message with its stamp, in the paste it was in unless it is let go. -/
structure Lodged (m m' : Message) : Prop where
  stamp : m'.stamp = m.stamp
  rides : m'.carriedBy = m.carriedBy ∨ m'.carriedBy = none

/-- What any statement leaves of a message: that, the task it is the brief of, what holds it back,
    and a participant's words. -/
structure Spared (m m' : Message) : Prop extends Lodged m m' where
  brief : m'.brief = m.brief
  shut : m.sender.isSome = true → m.Shut → m'.Shut
  words : m.sender.isSome = true → m'.body = m.body

/-- What a statement leaves of a message that rides, or that others ride in; `human`, whether the
    message is the human's. -/
structure Steady (human : Prop) (m m' : Message) : Prop where
  alone : m'.state = .delivering → m.state = .delivering ∨ m'.carriedBy = none
  settled : m.kind = .task → m'.state.Pending → m.state.Pending
  ended : m'.carriedBy.isSome = true → m.Over → m'.Over
  lies : m'.carriedBy.isSome = true → m.kind ≠ .question → ∀ settled, m.Lies settled human →
    m'.Lies settled human

/-- What a plain statement leaves of a message: that, and all of it that rides. -/
structure Plain (m m' : Message) : Prop extends Spared m m' where
  steady : ∀ human, Steady human m m'

/-- A message in another state; the trigger `message_pasted_into_settled` clears where it was
    pasted once it is on its way no more. -/
def Message.to (m : Message) (state : MessageState) : Message :=
  { m with state, pastedInto := if state = .delivering then m.pastedInto else none }

theorem Message.proof_of_late (m : Message) (h : m.late = true) : m.receipt.isSome = true := by
  unfold Message.late at h
  cases hr : m.receipt with
  | none =>
    rw [hr] at h
    cases h
  | some r => rfl

namespace Steady

variable {human : Prop} {m m' : Message}

/-- Its state is the same, and its receipt. -/
theorem same (hk : m'.kind = m.kind) (hs : m'.state = m.state) (hr : m'.receipt = m.receipt) :
    Steady human m m' := by
  refine ⟨fun h => .inl (hs ▸ h), fun _ h => hs ▸ h, fun _ h => ?_, fun _ _ settled h => ?_⟩
  · unfold Message.Over Message.late at h ⊢
    rw [hk, hs, hr]
    exact h
  · unfold Message.Lies Message.late at h ⊢
    rw [hs, hr]
    exact h

/-- It is withdrawn. -/
theorem withdrawn (hk : m'.kind = m.kind) (hs : m'.state = .cancelled) : Steady human m m' := by
  refine ⟨fun h => ?_, fun _ h => ?_, fun _ h => ⟨hk ▸ h.1, ?_⟩, fun _ _ settled _ => ?_⟩
  · rw [hs] at h
    cases h
  · rw [hs] at h
    exact h.elim
  · rw [hs]
    trivial
  · unfold Message.Lies
    rw [hs]
    trivial

/-- It is read, with a proof. -/
theorem proved (hk : m'.kind = m.kind) (hs : m'.state = .read) (hr : m'.receipt.isSome = true) :
    Steady human m m' := by
  refine ⟨fun h => ?_, fun _ h => ?_, fun _ h => ⟨hk ▸ h.1, ?_⟩, fun _ _ settled _ => ?_⟩
  · rw [hs] at h
    cases h
  · rw [hs] at h
    exact h.elim
  · rw [hs]
    exact hr
  · unfold Message.Lies
    rw [hs]
    exact .inl hr

/-- It was on its way. -/
theorem onItsWay (h : m.state = .delivering) : Steady human m m' := by
  refine ⟨fun _ => .inl h, fun _ _ => ?_, fun _ k => ?_, fun _ _ settled k => ?_⟩
  · rw [h]
    trivial
  · have k := k.2
    rw [h] at k
    exact k.elim
  · unfold Message.Lies at k
    rw [h] at k
    exact k.elim

/-- It was delivered, and is read. -/
theorem shown (hk : m'.kind = m.kind) (h : m.state = .delivered) (hs : m'.state = .read)
    (hr : m'.receipt = m.receipt) : Steady human m m' := by
  refine ⟨fun k => ?_, fun _ k => ?_, fun _ k => ?_, fun _ _ settled k => ?_⟩
  · rw [hs] at k
    cases k
  · rw [hs] at k
    exact k.elim
  · obtain ⟨asked, k⟩ := k
    rw [h] at k
    refine ⟨hk ▸ asked, ?_⟩
    rw [hs]
    have k : m.receipt.any (fun r => r.cancelled.isSome) = true := k
    rw [hr]
    cases hm : m.receipt with
    | none =>
      rw [hm] at k
      cases k
    | some r => rfl
  · unfold Message.Lies at k ⊢
    rw [h] at k
    rw [hs, hr]
    exact .inl k.1

/-- Another proof, of what is not delivered. -/
theorem provedElse (hk : m'.kind = m.kind) (hs : m'.state = m.state) (hd : m.state ≠ .delivered)
    (hr : m'.receipt.isSome = true) : Steady human m m' := by
  refine ⟨fun k => .inl (hs ▸ k), fun _ k => hs ▸ k, fun _ k => ⟨hk ▸ k.1, ?_⟩,
    fun _ _ settled k => ?_⟩
  · have k := k.2
    rw [hs]
    cases h : m.state <;> rw [h] at k <;> first | exact k | exact hr | exact absurd h hd
  · unfold Message.Lies at k ⊢
    rw [hs]
    cases h : m.state <;> rw [h] at k <;> first | exact k | exact .inl hr | exact absurd h hd

/-- A read with no proof of an answer waits again. -/
theorem again (ha : m.kind = .answer) (h : m.state = .read)
    (hr : m.receipt = none) (hs : m'.state = .queued) : Steady human m m' := by
  refine ⟨fun k => ?_, fun k => ?_, fun _ k => ?_, fun _ _ settled _ => ?_⟩
  · rw [hs] at k
    cases k
  · rw [ha] at k
    cases k
  · have k := k.2
    rw [h, hr] at k
    cases k
  · unfold Message.Lies
    rw [hs]
    trivial

/-- It was withdrawn, and is delivered late. -/
theorem arrivedLate (hk : m'.kind = m.kind) (hs : m'.state = .delivered)
    (hl : m'.late = true) : Steady human m m' := by
  have proof : m'.receipt.isSome = true := m'.proof_of_late hl
  refine ⟨fun k => ?_, fun _ k => ?_, fun _ k => ⟨hk ▸ k.1, ?_⟩, fun _ _ settled _ => ?_⟩
  · rw [hs] at k
    cases k
  · rw [hs] at k
    exact k.elim
  · rw [hs]
    exact hl
  · unfold Message.Lies
    rw [hs]
    exact ⟨proof, .inl hl⟩

/-- It waited on its own. -/
theorem lone (h : m.state.Pending) (hc : m'.carriedBy = none) : Steady human m m' := by
  refine ⟨fun _ => .inr hc, fun _ _ => h, fun k => ?_, fun k => ?_⟩ <;>
    · rw [hc] at k
      cases k

/-- It was held at the gate, and waits. -/
theorem passed (h : m.state = .gated) (hs : m'.state ≠ .delivering) : Steady human m m' := by
  refine ⟨fun k => absurd k hs, fun _ _ => ?_, fun _ k => ?_, fun _ _ settled k => ?_⟩
  · rw [h]
    trivial
  · have k := k.2
    rw [h] at k
    exact k.elim
  · unfold Message.Lies at k
    rw [h] at k
    exact k.elim

/-- The human read it, who it waited for. -/
theorem seen (here : human) (h : m.state = .queued) (hs : m'.state = .read) :
    Steady human m m' := by
  refine ⟨fun k => ?_, fun _ _ => ?_, fun _ k => ?_, fun _ _ settled _ => ?_⟩
  · rw [hs] at k
    cases k
  · rw [h]
    trivial
  · have k := k.2
    rw [h] at k
    exact k.elim
  · unfold Message.Lies
    rw [hs]
    exact .inr here

/-- It is a question, on its way no more than it was. -/
theorem question (h : m.kind = .question) (hs : m'.state ≠ .delivering) : Steady human m m' := by
  refine ⟨fun k => absurd k hs, fun k => ?_, fun _ k => absurd h k.1, fun _ k => absurd h k⟩
  rw [h] at k
  cases k

end Steady

/-- A message neither held at the gate nor withdrawn. -/
theorem Message.not_shut {m : Message} (hg : m.state ≠ .gated) (hc : m.state ≠ .cancelled) :
    ¬ m.Shut := fun h => h.state.elim hg hc

/-- A state neither held at the gate nor withdrawn. -/
def MessageState.Unshut : MessageState → Prop
  | gated | cancelled => False
  | _ => True

theorem MessageState.Unshut.not_shut {st : MessageState} (h : st.Unshut) {m : Message}
    (hm : m.state = st) : ¬ m.Shut := by
  subst hm
  refine Message.not_shut ?_ ?_ <;> intro e <;> rw [e] at h <;> exact h

theorem Message.not_shut_of_queued {m : Message} (h : m.state = .queued) : ¬ m.Shut :=
  Message.not_shut (by simp [h]) (by simp [h])

theorem altered_of {p : Message → Bool} {f : Message → Message} {m : Message} (h : p m = true) :
    Table.altered p f m = Keyed.rekey m.id (f m) := if_pos h

theorem altered_not {p : Message → Bool} {f : Message → Message} {m : Message} (h : p m = false) :
    Table.altered p f m = m := if_neg (by rw [h]; exact Bool.false_ne_true)

theorem altered_message_id (p : Message → Bool) (f : Message → Message) (m : Message) :
    (Table.altered p f m).id = m.id := Table.key_altered p f m

theorem Spared.refl (m : Message) : Spared m m :=
  ⟨⟨rfl, Or.inl rfl⟩, rfl, fun _ h => h, fun _ => rfl⟩

theorem altered_lodged {p : Message → Bool} {f : Message → Message} {m : Message}
    (h : p m = true → Lodged m (f m)) : Lodged m (Table.altered p f m) := by
  unfold Table.altered
  split
  · next hp => exact ⟨(h hp).stamp, (h hp).rides⟩
  · exact ⟨rfl, Or.inl rfl⟩

theorem altered_spared {p : Message → Bool} {f : Message → Message} {m : Message}
    (h : p m = true → Spared m (f m)) : Spared m (Table.altered p f m) := by
  unfold Table.altered
  split
  · next hp =>
    have k := h hp
    exact ⟨⟨k.stamp, k.rides⟩, k.brief,
      fun hs hm => ⟨(k.shut hs hm).state, (k.shut hs hm).alone⟩, k.words⟩
  · exact Spared.refl m

theorem altered_steady {human : Prop} {p : Message → Bool} {f : Message → Message} {m : Message}
    (h : p m = true → Steady human m (f m)) : Steady human m (Table.altered p f m) := by
  unfold Table.altered
  split
  · next hp =>
    have k := h hp
    exact ⟨k.alone, k.settled, k.ended, k.lies⟩
  · exact Steady.same rfl rfl rfl

/-- The ledger with the messages that meet `p` changed. -/
def Ledger.withMessages (s : Ledger) (p : Message → Bool) (f : Message → Message) : Ledger :=
  { s with messages := s.messages.alter p f }

/-- A statement on messages is held to what it does to each. -/
theorem kept_withMessages {x : Excuse} (s : Ledger) (p : Message → Bool) (f : Message → Message)
    (h : ∀ m ∈ s.messages.rows, Handled x s m (Table.altered p f m))
    (t : ¬ x.loose → Tight x s (s.withMessages p f)) : Kept x s (s.withMessages p f) := by
  refine ⟨List.prefix_refl _, Nat.le_refl _, fun m hm => ?_, fun m' hm' _ => ?_,
    fun m' hm' hle => ?_, fun _ h => h, fun _ _ h => h, t⟩
  · exact ⟨_, Table.mem_alter.mpr ⟨m, hm, rfl⟩, altered_message_id p f m⟩
  · obtain ⟨m, hm, rfl⟩ := Table.mem_alter.mp hm'
    exact ⟨m, hm, (altered_message_id p f m).symm, h m hm⟩
  · exact absurd (Table.below _ m' hm') (Nat.not_lt_of_le hle)

/-- The board after a statement on messages that leaves each the brief it was. -/
theorem board_withMessages (s : Ledger) (p : Message → Bool) (f : Message → Message)
    (h : ∀ m, (Table.altered p f m).brief = m.brief) :
    (s.withMessages p f).board = s.board := by
  have e : (s.messages.alter p f).rows.filterMap Message.brief =
      s.messages.rows.filterMap Message.brief := by
    unfold Table.alter
    rw [List.filterMap_map]
    exact List.filterMap_congr fun m _ => h m
  unfold Ledger.board Ledger.withMessages
  rw [e]

/-- A carrier stays settled. -/
theorem Steady.settles {human : Prop} {m m' : Message} (h : Steady human m m')
    (rides : m'.carriedBy = m.carriedBy ∨ m'.carriedBy = none) (hk : m.kind = .task)
    (k : m.Settled) : m'.Settled := by
  refine ⟨fun hp => k.arrived (h.settled hk hp), ?_⟩
  rcases rides with e | e
  · cases hc : m.carriedBy with
    | none => exact .inl (e.trans hc)
    | some c =>
      have own : m.Over := k.own.resolve_left (by rw [hc]; exact Option.some_ne_none c)
      exact .inr (h.ended (by rw [e, hc]; rfl) own)
  · exact .inl e

/-- Rows that ride still, each as `P` relates it to what it was. -/
theorem riding_of_rows {s s' : Ledger} {hands : Nat → Prop} {aside aside' : Option Nat}
    {P : Message → Message → Prop} (ids : s.messages.next ≤ s'.messages.next)
    (rows : ∀ x' ∈ s'.messages.rows, ∃ x ∈ s.messages.rows, x'.id = x.id ∧ Lodged x x' ∧ P x x')
    (alone : ∀ x x', P x x' → x'.state = .delivering → x.state = .delivering ∨ x'.carriedBy = none)
    (lies : ∀ x x' c c', P x x' → P c c' → x'.carriedBy = x.carriedBy →
      x.carriedBy = some c.id → c'.id = c.id → Lodged c c' → s.Ride aside x c →
      x'.Lies (c'.Settled ∨ aside' = some c'.id) (s'.Human x.recipient))
    (h : s.Riding hands aside) : s'.Riding hands aside' := by
  refine ⟨fun x' hx' hs => ?_, fun x' hx' d hd hn => ?_⟩ <;>
    obtain ⟨x, hx, ex, lodged, px⟩ := rows x' hx'
  · rcases alone x x' px hs with k | k
    · exact lodged.rides.elim (fun e => e.trans (h.alone x hx k)) id
    · exact k
  · have same : x'.carriedBy = x.carriedBy := by
      rcases lodged.rides with e | e
      · exact e
      · rw [e] at hd
        cases hd
    obtain ⟨lt, ride⟩ := h.rides x hx d (same ▸ hd) (ex ▸ hn)
    refine ⟨Nat.lt_of_lt_of_le lt ids, fun c' hc' e => ?_⟩
    obtain ⟨c, hc, ec, lodgedC, pc⟩ := rows c' hc'
    have id : c.id = d := ec.symm.trans e
    have r := ride c hc id
    have recipient : x'.recipient = x.recipient := congrArg Stamp.recipient lodged.stamp
    refine ⟨(congrArg Stamp.kind lodgedC.stamp).trans r.kind,
      (congrArg Stamp.recipient lodgedC.stamp).trans (r.whom.trans recipient.symm), ?_, ?_⟩
    · rw [show x'.kind = x.kind from congrArg Stamp.kind lodged.stamp]
      exact r.asked
    · rw [recipient]
      exact lies x x' c c' px pc same (by rw [id, ← same, hd]) ec lodgedC r

/-- The rows of the messages changed. -/
theorem rows_withMessages {s : Ledger} {p : Message → Bool} {f : Message → Message}
    (lodged : ∀ m ∈ s.messages.rows, p m = true → Lodged m (f m))
    (steady : ∀ m ∈ s.messages.rows, p m = true → Steady (s.Human m.recipient) m (f m)) :
    ∀ x' ∈ (s.withMessages p f).messages.rows, ∃ x ∈ s.messages.rows, x'.id = x.id ∧
      Lodged x x' ∧ Steady (s.Human x.recipient) x x' := by
  intro x' hx'
  obtain ⟨x, hx, rfl⟩ := Table.mem_alter.mp hx'
  exact ⟨x, hx, altered_message_id p f x, altered_lodged (lodged x hx), altered_steady (steady x hx)⟩

/-- What rides, and what it rides in, after a statement on messages. -/
theorem riding_withMessages {s : Ledger} {p : Message → Bool} {f : Message → Message}
    {hands : Nat → Prop} {aside : Option Nat}
    (lodged : ∀ m ∈ s.messages.rows, p m = true → Lodged m (f m))
    (steady : ∀ m ∈ s.messages.rows, p m = true → Steady (s.Human m.recipient) m (f m))
    (h : s.Riding hands aside) : (s.withMessages p f).Riding hands aside := by
  refine riding_of_rows (s := s) (P := fun x x' => Steady (s.Human x.recipient) x x')
    (Nat.le_refl _) (rows_withMessages lodged steady) (fun x x' st => st.alone) (fun x x' c c' st stc same rode e lodgedC r => ?_) h
  refine (st.lies (by rw [same, rode]; rfl) r.asked _ r.lies).imp (fun k => ?_) id
  exact k.imp (stc.settles lodgedC.rides r.kind) fun k => k.trans (congrArg some e.symm)

/-- What is over, after a statement on messages. -/
theorem tight_withMessages {x : Excuse} {s : Ledger} {p : Message → Bool} {f : Message → Message}
    (lodged : ∀ m ∈ s.messages.rows, p m = true → Lodged m (f m))
    (steady : ∀ m ∈ s.messages.rows, p m = true → Steady (s.Human m.recipient) m (f m)) :
    Tight x s (s.withMessages p f) := by
  refine ⟨fun m hm m' hm' e c hc _ _ ho => ?_, fun hands _ h => riding_withMessages lodged steady h⟩
  obtain ⟨m0, hm0, e0, -, st⟩ := rows_withMessages lodged steady m' hm'
  have same : m0 = m := Table.eq_of_key hm0 hm (e0.symm.trans e)
  subst same
  exact st.ended (by rw [hc]; rfl) ho

/-- A statement on messages that spares each, and holds what rides to its rule or is excused. -/
theorem desk_withMessages {x : Excuse} (s : Ledger) (p : Message → Bool) (f : Message → Message)
    (h : ∀ m, p m = true → Spared m (f m)) (t : ¬ x.loose → Tight x s (s.withMessages p f)) :
    Desk x s (s.withMessages p f) := by
  have hp : ∀ m, Spared m (Table.altered p f m) := fun m => altered_spared (h m)
  refine ⟨kept_withMessages s p f (fun m _ => ⟨(hp m).stamp, fun c hc _ _ => ?_,
    fun hs _ => (hp m).shut hs, fun hs _ => (hp m).words hs⟩) t,
    board_withMessages s p f fun m => (hp m).brief⟩
  rcases (hp m).rides with e | e
  · rw [← e, hc]
  · rw [e] at hc
    cases hc

theorem desk_plain (s : Ledger) (p : Message → Bool) (f : Message → Message)
    (h : ∀ m, p m = true → Plain m (f m)) : Desk .none s (s.withMessages p f) :=
  desk_withMessages s p f (fun m hp => (h m hp).toSpared) fun _ =>
    tight_withMessages (fun m _ hp => (h m hp).toLodged) fun m _ hp => (h m hp).steady _

/-- `UPDATE message SET … WHERE …`, of columns other than a message's stamp and carrier, or
    that lets it go of its carrier. -/
def setMessages (p : Message → Bool) (f : Message → Message)
    (h : ∀ m, p m = true → Plain m (f m) := by
      intro m hp
      refine ⟨⟨⟨rfl, ?_⟩, rfl, ?_, ?_⟩, ?_⟩ <;>
        first
          | exact Or.inl rfl | exact Or.inr rfl | exact fun _ h => ⟨h.state, h.alone⟩
          | exact fun _ h => ⟨h.state, rfl⟩ | exact fun _ h => ⟨Or.inr rfl, h.alone⟩
          | exact fun _ => rfl | exact fun _ => .same rfl rfl rfl
          | exact fun _ => .withdrawn rfl rfl) : DeskM Unit :=
  write (fun s => s.withMessages p f) (fun s => desk_plain s p f h)

/-- `UPDATE message SET … WHERE …`, held to nothing of what rides. -/
def setLoosely (p : Message → Bool) (f : Message → Message)
    (h : ∀ m, p m = true → Spared m (f m)) : LooseM Unit :=
  write (fun s => s.withMessages p f) (fun s => desk_withMessages s p f h fun k => absurd trivial k)

/-- `UPDATE message SET … WHERE id = ?`. -/
def setMessage (id : Nat) (f : Message → Message)
    (h : ∀ m, (m.id == id) = true → Plain m (f m) := by
      intro m hp
      refine ⟨⟨⟨rfl, ?_⟩, rfl, ?_, ?_⟩, ?_⟩ <;>
        first
          | exact Or.inl rfl | exact Or.inr rfl | exact fun _ h => ⟨h.state, h.alone⟩
          | exact fun _ h => ⟨h.state, rfl⟩ | exact fun _ h => ⟨Or.inr rfl, h.alone⟩
          | exact fun _ => rfl | exact fun _ => .same rfl rfl rfl
          | exact fun _ => .withdrawn rfl rfl) : DeskM Unit :=
  setMessages (fun m => m.id == id) f h

theorem Message.rides_on (m : Message) : m.stamp = m.stamp ∧ m.brief = m.brief ∧
    m.body = m.body ∧ (m.carriedBy = m.carriedBy ∨ m.carriedBy = none) :=
  ⟨rfl, rfl, rfl, Or.inl rfl⟩

theorem Message.let_go (m : Message) : m.stamp = m.stamp ∧ m.brief = m.brief ∧ m.body = m.body ∧
    ((none : Option Nat) = m.carriedBy ∨ (none : Option Nat) = none) :=
  ⟨rfl, rfl, rfl, Or.inr rfl⟩

theorem spared_in {st : MessageState} {p : Message → Bool} {f : Message → Message}
    (hst : st.Unshut) (h : ∀ m, (f m).stamp = m.stamp ∧ (f m).brief = m.brief ∧
      (f m).body = m.body ∧ ((f m).carriedBy = m.carriedBy ∨ (f m).carriedBy = none)) (m : Message)
    (hp : (m.state == st && p m) = true) : Spared m (f m) := by
  have hs : m.state = st := beq_iff_eq.mp (Bool.and_eq_true_iff.mp hp).1
  obtain ⟨h1, h2, h3, h4⟩ := h m
  exact ⟨⟨h1, h4⟩, h2, fun _ k => absurd k (hst.not_shut hs), fun _ => h3⟩

/-- `UPDATE message SET … WHERE state = ? AND …`, of a state neither held nor withdrawn. -/
def setMessagesIn (st : MessageState) (p : Message → Bool) (f : Message → Message)
    (hst : st.Unshut := by exact trivial)
    (h : ∀ m, (f m).stamp = m.stamp ∧ (f m).brief = m.brief ∧ (f m).body = m.body ∧
        ((f m).carriedBy = m.carriedBy ∨ (f m).carriedBy = none) := by
      intro m
      first | exact m.rides_on | exact m.let_go)
    (k : ∀ m, m.state = st → p m = true → ∀ human, Steady human m (f m) := by
      intro m hs hp human
      first
        | exact .onItsWay hs | exact .withdrawn rfl rfl | exact .proved rfl rfl rfl
        | exact .shown rfl hs rfl rfl) : DeskM Unit :=
  setMessages (fun m => m.state == st && p m) f fun m hp =>
    have both := Bool.and_eq_true_iff.mp hp
    ⟨spared_in hst h m hp, k m (beq_iff_eq.mp both.1) both.2⟩

/-- `UPDATE message SET … WHERE state = ? AND …`, held to nothing of what rides. -/
def setLooselyIn (st : MessageState) (p : Message → Bool) (f : Message → Message)
    (hst : st.Unshut := by exact trivial)
    (h : ∀ m, (f m).stamp = m.stamp ∧ (f m).brief = m.brief ∧ (f m).body = m.body ∧
        ((f m).carriedBy = m.carriedBy ∨ (f m).carriedBy = none) := by
      intro m
      first | exact m.rides_on | exact m.let_go) : LooseM Unit :=
  setLoosely (fun m => m.state == st && p m) f (spared_in hst h)

section Ran

variable {s s' : Ledger} {u : Unit} {st : MessageState} {p : Message → Bool}
  {f : Message → Message}

theorem setMessages_ok {h : ∀ m, p m = true → Plain m (f m)}
    (ran : (setMessages p f h).run s = .ok (u, s')) : s' = s.withMessages p f :=
  (run_write_ok.mp ran).symm

theorem setLoosely_ok {h : ∀ m, p m = true → Spared m (f m)}
    (ran : (setLoosely p f h).run s = .ok (u, s')) : s' = s.withMessages p f :=
  (run_write_ok.mp ran).symm

theorem setMessagesIn_ok {hst : st.Unshut} {h : ∀ m, (f m).stamp = m.stamp ∧
      (f m).brief = m.brief ∧ (f m).body = m.body ∧
        ((f m).carriedBy = m.carriedBy ∨ (f m).carriedBy = none)}
    {k : ∀ m, m.state = st → p m = true → ∀ human, Steady human m (f m)}
    (ran : (setMessagesIn st p f hst h k).run s = .ok (u, s')) :
    s' = s.withMessages (fun m => m.state == st && p m) f := setMessages_ok ran

theorem setLooselyIn_ok {hst : st.Unshut} {h : ∀ m, (f m).stamp = m.stamp ∧
      (f m).brief = m.brief ∧ (f m).body = m.body ∧
        ((f m).carriedBy = m.carriedBy ∨ (f m).carriedBy = none)}
    (ran : (setLooselyIn st p f hst h).run s = .ok (u, s')) :
    s' = s.withMessages (fun m => m.state == st && p m) f := setLoosely_ok ran

end Ran

/-! ## 3. Statements on the board -/

/-- A statement on the board: it writes neither the mail nor the log, and neither who the human
    is nor a gate. -/
def writeBoard (f : Ledger → Ledger) (he : ∀ s, (f s).events = s.events := by intro s; rfl)
    (hm : ∀ s, (f s).messages = s.messages := by intro s; rfl)
    (hh : ∀ s i, s.Human i → (f s).Human i := by intro s i h; exact h)
    (hg : ∀ s p, s.GateOff p → (f s).GateOff p := by intro s p h; exact h) : LedgerM Unit :=
  write f fun s => Kept.of_eq (he s) (hm s) (hh s) (fun p _ => hg s p)

/-- `task_assignee_check`. -/
def Task.assigneeCheck (t : Task) : Bool := t.assignee.isSome || t.state.unassignable

def assigneeCheckFailed : LedgerError :=
  .sqlite "CHECK constraint failed: task_assignee_check"

/-- `UPDATE task SET … WHERE id = ?`, held to the schema's check. -/
def updateTask (id : Nat) (f : Task → Task) : LedgerM Unit := do
  let s ← state
  require (s.tasks.rows.all fun t => t.id != id || (f t).assigneeCheck) assigneeCheckFailed
  writeBoard fun s => { s with tasks := s.tasks.alterAt id f }

/-- `INSERT INTO task`, held to the schema's check: its id. -/
def insertTask (t : Task) : LedgerM Nat := do
  let s ← state
  require t.assigneeCheck assigneeCheckFailed
  writeBoard fun s => { s with tasks := s.tasks.insert t }
  pure s.tasks.next

/-- `INSERT INTO task_need`, held to its key and to `task_need_self_check`. -/
def insertNeed (task needs : Nat) : LedgerM Unit := do
  let s ← state
  require (task != needs) (.sqlite "CHECK constraint failed: task_need_self_check")
  require (!s.needs.contains (task, needs))
    (.sqlite "UNIQUE constraint failed: task_need.task_id, task_need.needs_id")
  writeBoard fun s => { s with needs := s.needs ++ [(task, needs)] }

/-- `DELETE FROM task_need WHERE task_id = ? AND needs_id = ?`. -/
def deleteNeed (task needs : Nat) : LedgerM Unit :=
  writeBoard fun s => { s with needs := s.needs.filter fun e => e != (task, needs) }

theorem human_alter {s : Ledger} (p : Participant → Bool) (f : Participant → Participant)
    (h : ∀ q, p q = true → q.role = .human → (f q).role = .human) {i : Nat} (hi : s.Human i) :
    ({ s with participants := s.participants.alter p f } : Ledger).Human i := by
  obtain ⟨q, hq, rfl, hr⟩ := hi
  refine ⟨_, Table.mem_alter.mpr ⟨q, hq, rfl⟩, Table.key_altered p f q, ?_⟩
  unfold Table.altered
  split
  · next hp => exact h q hp hr
  · exact hr

theorem gateOff_alter {s : Ledger} (p : Project → Bool) (f : Project → Project)
    (h : ∀ q, (f q).gate = q.gate) {i : Nat} (hi : s.GateOff i) :
    ({ s with projects := s.projects.alter p f } : Ledger).GateOff i := by
  obtain ⟨q, hq, rfl, hr⟩ := hi
  refine ⟨_, Table.mem_alter.mpr ⟨q, hq, rfl⟩, Table.key_altered p f q, ?_⟩
  unfold Table.altered
  split
  · exact (h q).trans hr
  · exact hr

/-- `UPDATE participant SET … WHERE …`, which makes no human another. -/
def updateParticipants (p : Participant → Bool) (f : Participant → Participant)
    (h : ∀ q, p q = true → q.role = .human → (f q).role = .human := by intro q _ hq; exact hq) :
    LedgerM Unit :=
  writeBoard (fun s => { s with participants := s.participants.alter p f })
    (fun _ => rfl) (fun _ => rfl) (fun _ _ hi => human_alter p f h hi)

/-- `UPDATE participant SET … WHERE id = ?`. -/
def updateParticipant (id : Nat) (f : Participant → Participant)
    (h : ∀ q, q.role = .human → (f q).role = .human := by intro q hq; exact hq) : LedgerM Unit :=
  updateParticipants (fun p => p.id == id) f fun q _ hq => h q hq

/-- `INSERT INTO participant`: its id. -/
def insertParticipant (p : Participant) : LedgerM Nat := do
  let s ← state
  writeBoard (fun s => { s with participants := s.participants.insert p })
    (fun _ => rfl) (fun _ => rfl)
    (fun _ _ ⟨q, hq, hi⟩ => ⟨q, Table.mem_insert.mpr (Or.inl hq), hi⟩)
  pure s.participants.next

/-- `UPDATE project SET … WHERE id = ?`, of anything but its gate. -/
def updateProject (id : Nat) (f : Project → Project)
    (h : ∀ q, (f q).gate = q.gate := by intro q; rfl) : LedgerM Unit :=
  writeBoard (fun s => { s with projects := s.projects.alterAt id f })
    (fun _ => rfl) (fun _ => rfl) (fun _ _ hi => hi) (fun _ _ hi => gateOff_alter _ f h hi)

/-- `INSERT INTO project`: its id. -/
def insertProject (p : Project) : LedgerM Nat := do
  let s ← state
  writeBoard (fun s => { s with projects := s.projects.insert p })
    (fun _ => rfl) (fun _ => rfl) (fun _ _ hi => hi)
    (fun _ _ ⟨q, hq, hi⟩ => ⟨q, Table.mem_insert.mpr (Or.inl hq), hi⟩)
  pure s.projects.next

/-! ## 4. Statements on conversations -/

theorem desk_conversations (s : Ledger) (t : Table Conversation) :
    Desk .none s { s with conversations := t } :=
  ⟨Kept.of_eq rfl rfl (fun _ h => h) (fun _ _ h => h), rfl⟩

/-- `UPDATE conversation SET … WHERE …`. -/
def updateConversations (p : Conversation → Bool) (f : Conversation → Conversation) : DeskM Unit :=
  write (fun s => { s with conversations := s.conversations.alter p f })
    fun s => desk_conversations s _

/-- `INSERT INTO conversation`: its id. -/
def insertConversation (c : Conversation) : DeskM Nat := do
  let s ← state
  write (fun s => { s with conversations := s.conversations.insert c })
    fun s => desk_conversations s _
  pure s.conversations.next

/-- `current_conversation`: a participant's conversation now, if one has not ended. -/
def Ledger.currentConversation (s : Ledger) (participant : Nat) : Option Conversation :=
  s.conversations.rows.find? fun c => c.participant == participant && c.endedAt.isNone

/-! ## 5. Rows looked up -/

section Lookups

variable {R : Ledger → Ledger → Prop} [Frame R]

/-- A project's row, or a refusal naming the id. -/
def projectRow (id : Nat) : LedgerTxn R Project := do
  let s ← state
  found (s.projects.get? id) (.refused "unknown-project" s!"no project {id}" 404)

/-- A participant's row, or a refusal naming the id. -/
def participantRow (id : Nat) : LedgerTxn R Participant := do
  let s ← state
  found (s.participants.get? id) (.refused "unknown-participant" s!"no participant {id}" 404)

/-- The participant a row names, which may be none. -/
def participantOf : Option Nat → LedgerTxn R Participant
  | some id => participantRow id
  | none => refuse (.refused "unknown-participant" "no participant null" 404)

/-- A participant that is still in the project; a member who left is refused. -/
def requireActive (p : Participant) : LedgerTxn R Unit :=
  require p.leftAt.isNone (.refused "member-left" s!"@{p.handle} left the staff" 409)

/-- A participant still in the project, by its handle; one that left is refused. -/
def participantByHandle (project : Nat) (handle : String) : LedgerTxn R Participant := do
  let _ ← projectRow project
  let s ← state
  let p ← found (s.participants.rows.find? fun p => p.project == project && p.handle == handle)
    (.refused "unknown-participant" s!"{quoted handle} is not in project {project}" 404)
  requireActive p
  pure p

/-- A task of the project by its number, or a refusal naming it. -/
def taskRow (project number : Nat) : LedgerTxn R Task := do
  let s ← state
  found (s.tasks.rows.find? fun t => t.project == project && t.number == number)
    (.refused "unknown-task" s!"no task T-{number} in project {project}" 404)

/-- A task by its id; SQLite's own word where there is none. -/
def taskById (id : Nat) : LedgerTxn R Task := do
  let s ← state
  found (s.tasks.get? id) (.sqlite "Query returned no rows")

/-- A message, or a refusal naming the id. -/
def knownMessage (id : Nat) : LedgerTxn R Message := do
  let s ← state
  found (s.messages.get? id) (.refused "unknown-message" s!"no message {id}" 404)

/-- A message in `state`, or a refusal. -/
def requireMessage (id : Nat) (st : MessageState) : LedgerTxn R Message := do
  let m ← knownMessage id
  require (m.state == st)
    (.refused "invalid-transition" s!"message {id} is {m.state.word}, not {st.word}" 409)
  pure m

/-- The task a message is about. -/
def messageTask (id : Nat) : LedgerTxn R (Option Task) := do
  let s ← state
  pure ((s.messages.get? id).bind fun m => m.task.bind s.tasks.get?)

/-- Text that says something and fits: `field` names it in the refusal. -/
def requireText (value field : String) (max : Nat) : LedgerTxn R Unit :=
  require (!(jsTrim value).isEmpty && utf16Len value ≤ max)
    (.wrong "invalid-text" s!"{field} must be text, not empty, at most {max} characters")

/-! ### What a lookup that succeeded found -/

variable {s s' : Ledger}

theorem taskRow_ok {project number : Nat} {t : Task}
    (h : (taskRow project number : LedgerTxn R Task).run s = .ok (t, s')) :
    s = s' ∧ t ∈ s.tasks.rows ∧ t.project = project ∧ t.number = number := by
  simp only [taskRow, run_bind_ok, run_state_ok, run_found_ok] at h
  obtain ⟨s0, s1, ⟨rfl, rfl⟩, hf, rfl⟩ := h
  have hp := List.find?_some hf
  simp only [Bool.and_eq_true, beq_iff_eq] at hp
  exact ⟨rfl, List.mem_of_find?_eq_some hf, hp.1, hp.2⟩

theorem taskById_ok {id : Nat} {t : Task}
    (h : (taskById id : LedgerTxn R Task).run s = .ok (t, s')) :
    s = s' ∧ t ∈ s.tasks.rows ∧ t.id = id := by
  simp only [taskById, run_bind_ok, run_state_ok, run_found_ok] at h
  obtain ⟨s0, s1, ⟨rfl, rfl⟩, hf, rfl⟩ := h
  exact ⟨rfl, Table.get?_eq_some.mp hf⟩

theorem projectRow_ok {id : Nat} {p : Project}
    (h : (projectRow id : LedgerTxn R Project).run s = .ok (p, s')) :
    s = s' ∧ p ∈ s.projects.rows ∧ p.id = id := by
  simp only [projectRow, run_bind_ok, run_state_ok, run_found_ok] at h
  obtain ⟨s0, s1, ⟨rfl, rfl⟩, hf, rfl⟩ := h
  exact ⟨rfl, Table.get?_eq_some.mp hf⟩

theorem participantRow_ok {id : Nat} {p : Participant}
    (h : (participantRow id : LedgerTxn R Participant).run s = .ok (p, s')) :
    s = s' ∧ p ∈ s.participants.rows ∧ p.id = id := by
  simp only [participantRow, run_bind_ok, run_state_ok, run_found_ok] at h
  obtain ⟨s0, s1, ⟨rfl, rfl⟩, hf, rfl⟩ := h
  exact ⟨rfl, Table.get?_eq_some.mp hf⟩

theorem participantOf_ok {o : Option Nat} {p : Participant}
    (h : (participantOf o : LedgerTxn R Participant).run s = .ok (p, s')) :
    s = s' ∧ p ∈ s.participants.rows ∧ o = some p.id := by
  cases o with
  | none => simp [participantOf] at h
  | some id =>
    obtain ⟨rfl, hp, rfl⟩ := participantRow_ok h
    exact ⟨rfl, hp, rfl⟩

theorem requireActive_ok {p : Participant} {u : Unit}
    (h : (requireActive p : LedgerTxn R Unit).run s = .ok (u, s')) :
    s = s' ∧ p.leftAt.isNone = true := by
  obtain ⟨hc, rfl⟩ := run_require_ok.mp h
  exact ⟨rfl, hc⟩

/-- A participant found by its handle: of the project, which is there, and on the board. -/
structure Found (s : Ledger) (proj : Nat) (name : String) (p : Participant) : Prop where
  mem : p ∈ s.participants.rows
  project : p.project = proj
  handle : p.handle = name
  here : p.leftAt.isNone = true
  row : ∃ q ∈ s.projects.rows, q.id = proj

theorem participantByHandle_ok {project : Nat} {handle : String} {p : Participant}
    (h : (participantByHandle project handle : LedgerTxn R Participant).run s = .ok (p, s')) :
    s = s' ∧ Found s project handle p := by
  obtain ⟨q, s1, h1, h⟩ := run_bind_ok.mp h
  obtain ⟨rfl, hq, eq⟩ := projectRow_ok h1
  simp only [run_bind_ok, run_state_ok, run_found_ok, run_pure_ok] at h
  obtain ⟨s0, s2, ⟨rfl, rfl⟩, p', s3, ⟨hf, rfl⟩, u, s4, ha, rfl, rfl⟩ := h
  obtain ⟨rfl, hl⟩ := requireActive_ok ha
  have hp := List.find?_some hf
  simp only [Bool.and_eq_true, beq_iff_eq] at hp
  exact ⟨rfl, List.mem_of_find?_eq_some hf, hp.1, hp.2, hl, q, hq, eq⟩

theorem requireText_ok {value field : String} {max : Nat} {u : Unit}
    (h : (requireText value field max : LedgerTxn R Unit).run s = .ok (u, s')) : s = s' :=
  (run_require_ok.mp h).2

theorem requireMessage_ok {id : Nat} {st : MessageState} {m : Message}
    (h : (requireMessage id st : LedgerTxn R Message).run s = .ok (m, s')) :
    s = s' ∧ m ∈ s.messages.rows ∧ m.id = id ∧ m.state = st := by
  simp only [requireMessage, knownMessage, run_bind_ok, run_state_ok, run_found_ok, run_require_ok,
    run_pure_ok] at h
  obtain ⟨m', s1, ⟨s0, s2, ⟨rfl, rfl⟩, hf, rfl⟩, u, s3, ⟨hc, rfl⟩, rfl, rfl⟩ := h
  obtain ⟨hm, e⟩ := Table.get?_eq_some.mp hf
  exact ⟨rfl, hm, e, by simpa using hc⟩

theorem knownMessage_ok {id : Nat} {m : Message}
    (h : (knownMessage id : LedgerTxn R Message).run s = .ok (m, s')) :
    s = s' ∧ m ∈ s.messages.rows ∧ m.id = id := by
  simp only [knownMessage, run_bind_ok, run_state_ok, run_found_ok] at h
  obtain ⟨s0, s1, ⟨rfl, rfl⟩, hf, rfl⟩ := h
  exact ⟨rfl, Table.get?_eq_some.mp hf⟩

theorem messageTask_ok {id : Nat} {t : Option Task}
    (h : (messageTask id : LedgerTxn R (Option Task)).run s = .ok (t, s')) :
    s = s' ∧ ∀ r, t = some r → r ∈ s.tasks.rows := by
  simp only [messageTask, run_bind_ok, run_state_ok, run_pure_ok] at h
  obtain ⟨s0, s1, ⟨rfl, rfl⟩, rfl, rfl⟩ := h
  refine ⟨rfl, fun r hr => ?_⟩
  obtain ⟨m, -, hr⟩ := Option.bind_eq_some_iff.mp hr
  obtain ⟨i, -, hr⟩ := Option.bind_eq_some_iff.mp hr
  exact (Table.get?_eq_some.mp hr).1

end Lookups

/-- `MAX_BODY`. -/
def maxBody : Nat := 1000000

/-- A participant's handle. -/
def Ledger.handleOf (s : Ledger) (id : Nat) : String :=
  ((s.participants.get? id).map (·.handle)).getD ""

/-- A participant's role. -/
def Ledger.roleOf (s : Ledger) (id : Nat) : Option Role :=
  (s.participants.get? id).map (·.role)

end ConsensFlow
