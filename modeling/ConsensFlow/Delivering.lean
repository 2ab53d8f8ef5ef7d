/-
  File:      ConsensFlow/Delivering.lean
  Subject:   A MESSAGE PASTED INTO ITS WINDOW (`messages/delivery.rs`, `messages/gate.rs`): begun,
             let go, confirmed, tried again or given up; and the human's gate.

  * `beginDelivery`, `admitHandOver` -- a paste begins with the rows it carries, and is let go;
  * **`confirmDelivery`** -- the window's record shows it: what its paste carried arrived with it;
  * `retryDelivery`, `giveUpDelivery` -- back in its queue, or failed for good;
  * `confirmSentByHand` -- the human sent what the window's box held. Its type says what it may do
    beyond the rest: rows it names join a paste that is over, and pass the gate;
  * `approveMessage`, `declineMessage`, `markRead` -- the human's gate, and their own messages.
-/
import ConsensFlow.Asking

namespace ConsensFlow

open Lib Lib.Text Txn

/-! ## 1. Begun -/

/-- What a paste was begun with: its message, and the rows it carries. -/
structure Begun where
  message : Message
  carried : List Message

def ridesIn (id carrier : Nat) : LedgerError :=
  .refused "invalid-transition" s!"message {id} rides in the paste of m-{carrier}" 409

def claimedByDoor (id : Nat) : LedgerError :=
  .refused "invalid-transition" s!"message {id} is claimed by the door that asked for it" 409

/-- Whether the recipient of a message is still receiving, or at work on another task. -/
def Ledger.recipientBusy (s : Ledger) (m : Message) : Bool :=
  (s.messages.rows.any fun x => x.recipient == m.recipient && x.state == .delivering) ||
    (m.kind == .task && (s.roleOf m.recipient).any Role.memberRoles.contains &&
      s.tasks.rows.any fun t => t.assignee == some m.recipient && t.state.active &&
        m.task != some t.id)

/-- A queued message is on its way, where nothing stands against it: the message as it waited. -/
def putOnItsWay (id : Nat) : LooseM Message := do
  let m ← requireMessage id .queued
  let s ← state
  require (s.roleOf m.recipient != some .human)
    (.refused "human-reads-in-app" "the human reads messages in the app" 409)
  require m.carriedBy.isNone (ridesIn id (m.carriedBy.getD 0))
  require m.claimedAt.isNone (claimedByDoor id)
  require (!s.recipientBusy m)
    (.refused "recipient-busy"
      s!"{s.handleOf m.recipient} is still receiving or working; message {id} waits" 409)
  setLooselyIn .queued (fun x => x.id == id) fun x =>
    { x.to .delivering with attempts := x.attempts + 1, reason := none }
  pure m

theorem putOnItsWay_ok {id : Nat} {m : Message} {s s' : Ledger}
    (h : (putOnItsWay id).run s = .ok (m, s')) : m ∈ s.messages.rows ∧ m.id = id ∧
      m.state = .queued ∧ m.carriedBy = none ∧ s.roleOf m.recipient ≠ some .human ∧
      s' = s.withMessages (fun x => x.state == .queued && x.id == id) fun x =>
        { x.to .delivering with attempts := x.attempts + 1, reason := none } := by
  obtain ⟨m', s1, h1, h⟩ := run_bind_ok.mp h
  obtain ⟨rfl, hm, it, queued⟩ := requireMessage_ok h1
  obtain ⟨s2, s3, h2, h⟩ := run_bind_ok.mp h
  obtain ⟨rfl, rfl⟩ := run_state_ok.mp h2
  obtain ⟨u3, s3, h3, h⟩ := run_bind_ok.mp h
  obtain ⟨pane, rfl⟩ := run_require_ok.mp h3
  obtain ⟨u4, s4, h4, h⟩ := run_bind_ok.mp h
  obtain ⟨alone, rfl⟩ := run_require_ok.mp h4
  obtain ⟨u5, s5, h5, h⟩ := run_bind_ok.mp h
  obtain ⟨-, rfl⟩ := run_require_ok.mp h5
  obtain ⟨u6, s6, h6, h⟩ := run_bind_ok.mp h
  obtain ⟨-, rfl⟩ := run_require_ok.mp h6
  obtain ⟨u7, s7, h7, h⟩ := run_bind_ok.mp h
  obtain ⟨rfl, rfl⟩ := run_pure_ok.mp h
  exact ⟨hm, it, queued, Option.isNone_iff_eq_none.mp alone, bne_iff_ne.mp pane,
    setLooselyIn_ok h7⟩

/-- It waited on its own, so it rides in nothing. -/
theorem putOnItsWay_tight {id : Nat} {m : Message} {s s' : Ledger}
    (h : (putOnItsWay id).run s = .ok (m, s')) : Tight .none s s' := by
  obtain ⟨hm, it, queued, alone, -, rfl⟩ := putOnItsWay_ok h
  refine tight_withMessages (fun _ _ _ => ⟨rfl, .inl rfl⟩) fun x hx p => ?_
  simp only [Bool.and_eq_true, beq_iff_eq] at p
  obtain rfl : x = m := Table.eq_of_key hx hm (p.2.trans it.symm)
  refine .lone ?_ alone
  rw [queued]
  trivial

/-- `begin_delivery`. -/
def beginDelivery (id : Nat) : DeskM Begun := inWrite do
  let m ← tighten (putOnItsWay id) putOnItsWay_tight
  log m.project (.deliveryBegun id)
  let message ← knownMessage id
  let s ← state
  pure { message, carried := s.carried id }

/-- What the transport is to do with a hand-over begun. -/
inductive HandOver where
  | admitted | closed | withdrawn
  deriving DecidableEq, Repr

/-- Withdraws each of `rows` that is stale: whether one was. -/
def anyStale : List Message → DeskM Bool
  | [] => pure false
  | m :: rest => do
    let stale ← withdrawnIfStale m
    let others ← anyStale rest
    pure (stale || others)

/-- The message and the rows its paste was begun with are marked handed, where it may still go. -/
def handOver (id : Nat) (begunWith : List Nat) (m : Message) : DeskM HandOver := do
  let late ← match ← messageTask id with
    | some task => withdrawnLate m task
    | none => pure false
  if late then pure .withdrawn
  else do
    let s ← state
    let riding := (s.carried id).map (·.id)
    if m.state != .delivering || begunWith.any fun x => !riding.contains x then pure .withdrawn
    else do
      let t ← now
      setMessages (fun x => x.id == id || (x.carriedBy == some id && x.state == .queued))
        fun x => { x with handedAt := some t }
      pure .admitted

/-- `admit`: the transport is about to let a hand-over begun go to its window. -/
def admitHandOver (id : Nat) (begunWith : List Nat) : DeskM HandOver := inWrite do
  let s ← state
  match s.messages.get? id with
  | none => pure .withdrawn
  | some m =>
    if !s.isOpen m.project then pure .closed
    else do
      let stale ← anyStale (m :: s.carried id)
      if stale then pure .withdrawn else handOver id begunWith m

/-- `paste_into`: the conversation a message on its way goes into. -/
def pasteInto (id conversation : Nat) : DeskM Unit :=
  inWrite (setMessages (fun m => m.id == id && m.state == .delivering)
    fun m => { m with pastedInto := some conversation })

/-! ## 2. Arrived -/

/-- `WITHDRAWN_AFTER_HANDED`. -/
def withdrawnAfterHanded : String := "after it was handed over"

/-- Handed no earlier than its carrier was. -/
def Message.handedWith (m carrier : Message) : Bool :=
  match m.handedAt, carrier.handedAt with
  | some a, some b => decide (b ≤ a)
  | _, _ => false

/-- A row withdrawn after the paste of `id` that carried it was handed over. -/
def Ledger.lateIn (s : Ledger) (id : Nat) (m : Message) : Bool :=
  m.state == .cancelled && (s.messages.get? id).any m.handedWith

/-- `UPDATE message SET … WHERE carried_by = ? AND …`, of messages in a paste. -/
def setCarried (carrier : Nat) (p : Message → Bool) (f : Message → Message)
    (k : ∀ m, p m = true → ∀ human, Steady human m (f m))
    (h : ∀ m, (f m).stamp = m.stamp ∧ (f m).brief = m.brief ∧ (f m).body = m.body ∧
        (f m).carriedBy = m.carriedBy := by intro m; exact ⟨rfl, rfl, rfl, rfl⟩) : DeskM Unit :=
  setMessages (fun m => m.carriedBy == some carrier && p m) f (by
    intro m hp
    have both := Bool.and_eq_true_iff.mp hp
    have hc : m.carriedBy = some carrier := beq_iff_eq.mp both.1
    obtain ⟨h1, h2, h3, h4⟩ := h m
    exact ⟨⟨⟨h1, Or.inl h4⟩, h2, fun _ k => absurd (k.alone.symm.trans hc) (by simp), fun _ => h3⟩,
      k m both.2⟩)

/-- A row that arrived with its carrier, and one that had been withdrawn. -/
def Message.arrivedWith (id : Nat) (t : Time) (m : Message) : Message :=
  { m.to .delivered with
    deliveredAt := some t, receipt := some { proof := s!"\x7b\"carrier\":{id}\x7d" } }

def Message.arrivedLateWith (id : Nat) (t : Time) (m : Message) : Message :=
  { m.to .delivered with
    deliveredAt := some t
    receipt := some
      { proof := s!"\x7b\"carrier\":{id}\x7d", cancelled := some withdrawnAfterHanded } }

/-- What a paste carried arrived with it; so did a row withdrawn after it was handed over. -/
def arriveWith (id : Nat) (t : Time) : LooseM Unit := do
  setLooselyIn .queued (fun m => m.carriedBy == some id) (Message.arrivedWith id t)
  let s ← state
  setCarried id (s.lateIn id) (Message.arrivedLateWith id t) fun _ _ _ => .arrivedLate rfl rfl rfl

/-- A message on its way arrived, and what its paste carried: the message as it was. -/
def arrive (id : Nat) (receipt : Option Receipt) : LooseM Message := do
  let m ← requireMessage id .delivering
  let t ← now
  setMessagesIn .delivering (fun x => x.id == id) fun x =>
    { x.to .delivered with
      deliveredAt := some t, receipt := some (withKeptRead receipt m.keptRead) }
  arriveWith id t
  pure m

/-- What the arrival of the paste of `id` leaves of a row. -/
inductive Arrived (id : Nat) (x x' : Message) : Prop where
  | itself (it : x.id = id) (sent : x.state = .delivering) (arrived : x'.state = .delivered)
  | carried (notIt : x.id ≠ id) (rides : x.carriedBy = some id) (queued : x.state = .queued)
      (arrived : x'.state = .delivered) (proof : x'.receipt.isSome = true)
  | late (notIt : x.id ≠ id) (rides : x.carriedBy = some id) (withdrawn : x.state = .cancelled)
      (arrived : x'.state = .delivered) (late : x'.late = true)
  | other (notIt : x.id ≠ id) (same : x' = x)

section Arrived

variable {s s' : Ledger} {id : Nat} {receipt : Option Receipt} {m x x' c c' : Message}
  {hands : Nat → Prop} {aside : Option Nat}

/-- The three statements of an arrival, on one row. -/
def arrivedItself (id : Nat) (t : Time) (r : Receipt) (x : Message) : Message :=
  Table.altered (fun x => x.state == .delivering && x.id == id)
    (fun x => { x.to .delivered with deliveredAt := some t, receipt := some r }) x

def arrivedCarried (id : Nat) (t : Time) (x : Message) : Message :=
  Table.altered (fun x => x.state == .queued && x.carriedBy == some id) (Message.arrivedWith id t) x

def arrivedLate (id : Nat) (t : Time) (late : Message → Bool) (x : Message) : Message :=
  Table.altered (fun x => x.carriedBy == some id && late x) (Message.arrivedLateWith id t) x

/-- Each row as they leave it, where the message was on its way. -/
theorem arrived_of {t : Time} {r : Receipt} {late : Message → Bool}
    (withdrawn : ∀ y, late y = true → y.state = .cancelled)
    (own : x.id = id → x.state = .delivering)
    (e : x' = arrivedLate id t late (arrivedCarried id t (arrivedItself id t r x))) :
    x'.id = x.id ∧ Lodged x x' ∧ Arrived id x x' := by
  have notLate (y : Message) (hy : y.state ≠ .cancelled) : arrivedLate id t late y = y := by
    refine altered_not (Bool.and_eq_false_imp.mpr fun _ => ?_)
    cases hl : late y with
    | true => exact absurd (withdrawn y hl) hy
    | false => rfl
  have notCarried (y : Message) (hy : y.state ≠ .queued) : arrivedCarried id t y = y :=
    altered_not (by rw [beq_eq_false_iff_ne.mpr hy, Bool.false_and])
  by_cases it : x.id = id
  · have sent := own it
    have e1 : arrivedItself id t r x =
        Keyed.rekey x.id { x.to .delivered with deliveredAt := some t, receipt := some r } :=
      altered_of (by simp [sent, it])
    rw [e1, notCarried _ (fun k => by cases k), notLate _ (fun k => by cases k)] at e
    subst e
    exact ⟨rfl, ⟨rfl, .inl rfl⟩, .itself it sent rfl⟩
  · have e1 : arrivedItself id t r x = x := altered_not (by simp [it])
    rw [e1] at e
    by_cases rides : x.carriedBy = some id
    · by_cases queued : x.state = .queued
      · have e2 : arrivedCarried id t x = Keyed.rekey x.id (x.arrivedWith id t) :=
          altered_of (by simp [queued, rides])
        rw [e2, notLate _ (fun k => by cases k)] at e
        subst e
        exact ⟨rfl, ⟨rfl, .inl rfl⟩, .carried it rides queued rfl rfl⟩
      · rw [notCarried x queued] at e
        cases hl : late x with
        | true =>
          have e3 : arrivedLate id t late x = Keyed.rekey x.id (x.arrivedLateWith id t) :=
            altered_of (by simp [rides, hl])
          rw [e3] at e
          subst e
          exact ⟨rfl, ⟨rfl, .inl rfl⟩, .late it rides (withdrawn x hl) rfl rfl⟩
        | false =>
          have e3 : arrivedLate id t late x = x := altered_not (by simp [hl])
          rw [e3] at e
          subst e
          exact ⟨rfl, ⟨rfl, .inl rfl⟩, .other it rfl⟩
    · have e2 : arrivedCarried id t x = x := altered_not (by simp [rides])
      have e3 : arrivedLate id t late x = x := altered_not (by simp [rides])
      rw [e2, e3] at e
      subst e
      exact ⟨rfl, ⟨rfl, .inl rfl⟩, .other it rfl⟩

theorem arrive_rows (h : (arrive id receipt).run s = .ok (m, s')) :
    m ∈ s.messages.rows ∧ m.id = id ∧ m.state = .delivering ∧
      ∀ x' ∈ s'.messages.rows, ∃ x ∈ s.messages.rows, x'.id = x.id ∧ Lodged x x' ∧
        Arrived id x x' := by
  obtain ⟨m', s1, h1, h⟩ := run_bind_ok.mp h
  obtain ⟨rfl, hm, it, sent⟩ := requireMessage_ok h1
  obtain ⟨t, s2, h2, h⟩ := run_bind_ok.mp h
  rw [run_lifted] at h2
  obtain ⟨u3, s3, h3, h⟩ := run_bind_ok.mp h
  rw [run_lifted] at h3
  obtain ⟨u4, s4, h4, h⟩ := run_bind_ok.mp h
  obtain ⟨rfl, rfl⟩ := run_pure_ok.mp h
  obtain ⟨u5, s5, h5, h4⟩ := run_bind_ok.mp h4
  obtain ⟨s6, s7, h6, h4⟩ := run_bind_ok.mp h4
  obtain ⟨rfl, rfl⟩ := run_state_ok.mp h6
  rw [run_lifted] at h4
  refine ⟨hm, it, sent, fun x' hx' => ?_⟩
  rw [setMessages_ok h4] at hx'
  obtain ⟨x2, hx2, rfl⟩ := Table.mem_alter.mp hx'
  rw [setLooselyIn_ok h5] at hx2
  obtain ⟨x1, hx1, rfl⟩ := Table.mem_alter.mp hx2
  rw [setMessagesIn_ok h3] at hx1
  obtain ⟨x, hx, rfl⟩ := Table.mem_alter.mp hx1
  rw [now_messages h2] at hx
  refine ⟨x, hx, arrived_of (fun y hy => ?_) (fun same => ?_) rfl⟩
  · exact beq_iff_eq.mp (Bool.and_eq_true_iff.mp hy).1
  · rw [Table.eq_of_key hx hm (same.trans it.symm)]
    exact sent

namespace Arrived

theorem ended (h : Arrived id x x') (lodged : Lodged x x') (k : x.Over) : x'.Over := by
  have was := k.2
  cases h with
  | itself _ sent _ =>
    rw [sent] at was
    exact was.elim
  | carried _ _ queued _ _ =>
    rw [queued] at was
    exact was.elim
  | late _ _ _ arrived late =>
    refine ⟨?_, ?_⟩
    · rw [show x'.kind = x.kind from congrArg Stamp.kind lodged.stamp]
      exact k.1
    · rw [arrived]
      exact late
  | other _ same => exact same ▸ k

/-- A carrier is settled, where it was or its paste arrived now. -/
theorem settles (h : Arrived id c c') (lodged : Lodged c c')
    (alone : c.state = .delivering → c.carriedBy = none) (k : c.Settled ∨ c.id = id) :
    c'.Settled := by
  cases h with
  | itself _ sent arrived =>
    refine ⟨by rw [arrived]; exact fun p => p, .inl ?_⟩
    exact lodged.rides.elim (fun e => e.trans (alone sent)) fun e => e
  | carried notIt _ queued _ _ =>
    refine absurd ?_ (k.resolve_right notIt).arrived
    rw [queued]
    trivial
  | late notIt rides _ arrived late =>
    have own : c.Over := (k.resolve_right notIt).own.resolve_left (by
      rw [rides]
      exact Option.some_ne_none id)
    refine ⟨by rw [arrived]; exact fun p => p, .inr ⟨?_, by rw [arrived]; exact late⟩⟩
    rw [show c'.kind = c.kind from congrArg Stamp.kind lodged.stamp]
    exact own.1
  | other notIt same => exact same ▸ k.resolve_right notIt

/-- What rides in the paste that arrived arrived with it, or is over; what rides elsewhere lies
    as it did. -/
theorem lies {human settled : Prop} (h : Arrived id x x') (k : x.Lies settled human)
    (settles : settled → c'.Settled) (itself : x.carriedBy = some id → c'.Settled) :
    x'.Lies c'.Settled human := by
  cases h with
  | itself _ sent _ =>
    unfold Message.Lies at k
    rw [sent] at k
    exact k.elim
  | carried _ rides _ arrived proof =>
    unfold Message.Lies
    rw [arrived]
    exact ⟨proof, .inr (itself rides)⟩
  | late _ _ _ arrived late =>
    unfold Message.Lies
    rw [arrived]
    exact ⟨x'.proof_of_late late, .inl late⟩
  | other _ same => exact same ▸ k.imp settles fun p => p

end Arrived

/-- What arrives leaves the rows of other pastes as they ride, and its own are settled with it. -/
theorem arrive_riding (h : (arrive id receipt).run s = .ok (m, s'))
    (own : ∀ a, aside = some a → a = id) (r : s.Riding hands aside) : s'.Riding hands := by
  obtain ⟨-, -, -, rows⟩ := arrive_rows h
  have k : Kept { loose := True } s s' := ((arrive id receipt).within h).toKept
  refine riding_of_rows (P := fun x x' => Arrived id x x' ∧
      (x.state = .delivering → x.carriedBy = none)) k.ids (fun x' hx' => ?_)
    (fun x x' h sent => ?_) (fun x x' c c' hx hc same rode e lodged ride => ?_) r
  · obtain ⟨x, hx, e, lodged, arrived⟩ := rows x' hx'
    exact ⟨x, hx, e, lodged, arrived, r.alone x hx⟩
  · obtain ⟨arrived, -⟩ := h
    cases arrived with
    | other _ same => exact .inl (same ▸ sent)
    | itself _ _ arrived =>
      rw [arrived] at sent
      cases sent
    | carried _ _ _ arrived _ =>
      rw [arrived] at sent
      cases sent
    | late _ _ _ arrived _ =>
      rw [arrived] at sent
      cases sent
  · have settles := hc.1.settles lodged hc.2
    refine (hx.1.lies ride.lies (fun p => settles (p.imp_right (own _))) fun rides => ?_).imp .inl
      (k.human _)
    exact settles (.inr (Option.some.inj (rode.symm.trans rides)))

theorem arrive_tight (h : (arrive id receipt).run s = .ok (m, s')) : Tight .none s s' := by
  obtain ⟨-, -, -, rows⟩ := arrive_rows h
  refine ⟨fun x hx x' hx' e _ _ _ _ ended => ?_, fun _ _ r => arrive_riding h (by simp) r⟩
  obtain ⟨x0, hx0, e0, lodged, arrived⟩ := rows x' hx'
  have same : x0 = x := Table.eq_of_key hx0 hx (e0.symm.trans e)
  subst same
  exact arrived.ended lodged ended

end Arrived

/-- A read made on its way is told, if there was one. -/
def toldOfRead (id : Nat) : Option (Read × Option Nat) → DeskM Unit
  | some kept => toldWhenConfirmed id kept
  | none => pure ()

/-- **`confirm_delivery`**. -/
def confirmDelivery (id : Nat) (receipt : Option Receipt) : DeskM Message := inWrite do
  let m ← tighten (arrive id receipt) arrive_tight
  log m.project (.other "delivery.confirmed" (some id))
  toldOfRead id m.keptRead
  reconcileOf id
  knownMessage id

/-- `confirm_delivery_telling`: and the recipient's conversation was told its role. -/
def confirmDeliveryTelling (id : Nat) (receipt : Option Receipt) : DeskM Message := inWrite do
  let confirmed ← confirmDelivery id receipt
  let s ← state
  match confirmed.roleText, s.currentConversation confirmed.recipient with
  | some role, some conversation => setConversationRoleText conversation.id role
  | _, _ => pure ()
  pure confirmed

section Confirmed

variable {s s' : Ledger} {id : Nat} {receipt : Option Receipt} {m : Message} {hands : Nat → Prop}
  {aside : Option Nat}

/-- A delivery confirmed leaves no carrier aside. -/
theorem confirmDelivery_riding (h : (confirmDelivery id receipt).run s = .ok (m, s'))
    (own : ∀ a, aside = some a → a = id) (r : s.Riding hands aside) : s'.Riding hands := by
  obtain ⟨m1, s1, h1, h⟩ := run_bind_ok.mp h
  have k : Desk .none s1 s' := Txn.within _ h
  exact (k.tight fun p => p).riding hands (fun _ _ => False.elim) (arrive_riding h1 own r)

theorem confirmDeliveryTelling_riding
    (h : (confirmDeliveryTelling id receipt).run s = .ok (m, s'))
    (own : ∀ a, aside = some a → a = id) (r : s.Riding hands aside) : s'.Riding hands := by
  obtain ⟨m1, s1, h1, h⟩ := run_bind_ok.mp h
  have k : Desk .none s1 s' := Txn.within _ h
  exact (k.tight fun p => p).riding hands (fun _ _ => False.elim) (confirmDelivery_riding h1 own r)

end Confirmed

/-- `confirm_unproven`: taken for arrived, never pasted again. -/
def confirmUnproven (id : Nat) (item : String) (tell : List NewNote) : DeskM Message := inWrite do
  let confirmed ← confirmDelivery id
    (some { proof := s!"\x7b\"item\":{quoted item},\"unproven\":true\x7d" })
  log confirmed.project (.other "delivery.unproven" (some id))
  tell.forM fun n => do
    let _ ← note confirmed.project n
    pure ()
  pure confirmed

/-- Told words withdrawn with their cancelled task that read delivered now: their task, and whoever
    told them. -/
def Ledger.arrivedLate (s : Ledger) (row : Message) : Option (Task × Nat) := do
  let task ← row.task.bind s.tasks.get?
  let sender ← row.sender
  let arrived := (s.messages.get? row.id).any fun m => m.state == .delivered
  if row.state == .cancelled && task.state == .cancelled && arrived &&
      s.isTold row (task.assignee.map s.handleOf) then some (task, sender) else none

/-- `arrived_after_all`: each told that its window had the words after all. -/
def arrivedAfterAll (pasted : List Message) : DeskM Unit := do
  let s ← state
  let late := pasted.filterMap fun row => (s.arrivedLate row).map fun (t, p) => (t, p, row.id)
  let whom := (late.map fun (t, p, _) => (t, p)).eraseDups
  whom.forM fun (task, sender) => do
    let ids := (late.filter fun (t, p, _) => t == task && p == sender).map fun (_, _, id) => (id : Int)
    let _ ← sendNote task.project (s.handleOf sender) (some task.number)
      s!"T-{task.number} was cancelled, but the human sent what its window's input box held: the window had what you told it, {mList ids}, after all."
    pure ()

/-- What a paste sent by hand may do: its rows join it, and pass the gate with it. -/
def Excuse.sentByHand (id : Nat) (held : List Nat) : Excuse :=
  { joins := fun i c => c = id ∧ i ∈ held, opens := fun i => i = id ∨ i ∈ held }

instance Desk.sentByHand (id : Nat) (held : List Nat) : Frame (Desk (.sentByHand id held)) :=
  inferInstance

/-- The rows a paste sent by hand held ride in it again, handed with it. -/
def Ledger.heldAgain (s : Ledger) (id : Nat) (held : List Nat) (t : Time) : Ledger :=
  s.withMessages (fun m => held.contains m.id && m.id != id &&
      (m.state == .queued || m.state == .cancelled))
    fun m => { m with carriedBy := some id, handedAt := some t }

/-- A paste sent by hand is on its way. -/
def Ledger.begunByHand (s : Ledger) (id : Nat) (t : Time) : Ledger :=
  s.withMessages (fun m => m.id == id)
    fun m => { m.to .delivering with
      attempts := m.attempts + 1, handedAt := some t
      reason := if m.state = .queued then none else m.reason }

theorem desk_heldAgain (s : Ledger) (id : Nat) (held : List Nat) (t : Time) :
    Desk (.sentByHand id held) s (s.heldAgain id held t) := by
  refine ⟨kept_withMessages s _ _ (fun m _ => ?_) fun _ => ?_,
    board_withMessages s _ _ fun m => ?_⟩
  · unfold Table.altered
    split
    · next hp =>
      simp only [Bool.and_eq_true, List.contains_iff_mem] at hp
      refine ⟨rfl, fun c hc _ hx => ?_, fun _ ho => absurd (Or.inr hp.1.1) ho, fun _ _ => rfl⟩
      have e : id = c := by simpa [Keyed.rekey] using hc
      exact absurd ⟨e.symm, hp.1.1⟩ hx
    · exact Handled.refl _ s m
  · refine tight_putIn (fun y => ⟨rfl, rfl, rfl, rfl⟩) fun hands hj _ y _ hp => ?_
    simp only [Bool.and_eq_true, Bool.or_eq_true, beq_iff_eq, List.contains_iff_mem] at hp
    exact takes_byHand hp.2 (hj y.id id ⟨rfl, hp.1.1⟩)
  · unfold Table.altered
    split <;> rfl

theorem desk_begunByHand (s : Ledger) (id : Nat) (held : List Nat) (t : Time) :
    Desk { Excuse.sentByHand id held with loose := True } s (s.begunByHand id t) := by
  refine ⟨kept_withMessages s _ _ (fun m _ => ?_) fun hl => absurd trivial hl,
    board_withMessages s _ _ fun m => ?_⟩
  · unfold Table.altered
    split
    · next hp =>
      exact ⟨rfl, fun _ hc _ _ => hc, fun _ ho => absurd (Or.inl (beq_iff_eq.mp hp)) ho,
        fun _ _ => rfl⟩
    · exact Handled.refl _ s m
  · unfold Table.altered
    split <;> rfl

/-- The receipt of a message sent by hand, which says whether it was withdrawn or given up. -/
def handReceipt (m : Message) (receipt : Receipt) : Receipt :=
  match m.state with
  | .cancelled => { receipt with cancelled := some withdrawnAfterHanded }
  | .failed => { receipt with failed := some "it had been given up" }
  | _ => receipt

/-- Its delivery confirmed, telling the role or not. -/
def confirmHeld (id : Nat) (receipt : Receipt) (telling : Bool) : DeskM Message :=
  if telling then confirmDeliveryTelling id (some receipt) else confirmDelivery id (some receipt)

theorem confirmHeld_riding {s s' : Ledger} {id : Nat} {receipt : Receipt} {telling : Bool}
    {m : Message} {hands : Nat → Prop} {aside : Option Nat}
    (h : (confirmHeld id receipt telling).run s = .ok (m, s'))
    (own : ∀ a, aside = some a → a = id) (r : s.Riding hands aside) : s'.Riding hands := by
  cases telling with
  | true => exact confirmDeliveryTelling_riding h own r
  | false => exact confirmDelivery_riding h own r

/-- A paste begun again by hand, with the rows its window's box held, and confirmed. -/
def sentByHand (id : Nat) (held : List Nat) (m : Message) (receipt : Receipt) (telling : Bool) :
    ExcusedM { Excuse.sentByHand id held with loose := True } Message := do
  let t ← now
  setMessage id fun x => { x with carriedBy := none }
  write (fun s => s.heldAgain id held t) fun s => (desk_heldAgain s id held t).loosened
  let s ← state
  require (!s.messages.rows.any fun x => x.recipient == m.recipient && x.state == .delivering)
    (.sqlite "UNIQUE constraint failed: message.recipient_id")
  write (fun s => s.begunByHand id t) fun s => desk_begunByHand s id held t
  log m.project (.deliveryBegun id)
  confirmHeld id (handReceipt m receipt) telling

section ByHand

variable {s s' : Ledger} {id : Nat} {held : List Nat} {m c : Message} {receipt : Receipt}
  {telling : Bool} {hands : Nat → Prop} {t : Time}

/-- A message in no paste. -/
def Ledger.letGo (s : Ledger) (id : Nat) : Ledger :=
  s.withMessages (fun m => m.id == id) fun m => { m with carriedBy := none }

theorem sentByHand_ok (h : (sentByHand id held m receipt telling).run s = .ok (c, s')) :
    ∃ t s1 s2, (now : DeskM Time).run s = .ok (t, s1) ∧
      (log m.project (.deliveryBegun id)).run
        (((s1.letGo id).heldAgain id held t).begunByHand id t) = .ok ((), s2) ∧
      (confirmHeld id (handReceipt m receipt) telling).run s2 = .ok (c, s') := by
  obtain ⟨t, s1, h1, h⟩ := run_bind_ok.mp h
  rw [run_lifted] at h1
  obtain ⟨u2, s2, h2, h⟩ := run_bind_ok.mp h
  rw [run_lifted] at h2
  obtain rfl := setMessages_ok h2
  obtain ⟨u3, s3, h3, h⟩ := run_bind_ok.mp h
  obtain rfl := run_write_ok.mp h3
  obtain ⟨s4, s5, h4, h⟩ := run_bind_ok.mp h
  obtain ⟨rfl, rfl⟩ := run_state_ok.mp h4
  obtain ⟨u5, s5, h5, h⟩ := run_bind_ok.mp h
  obtain ⟨-, rfl⟩ := run_require_ok.mp h5
  obtain ⟨u6, s6, h6, h⟩ := run_bind_ok.mp h
  obtain rfl := run_write_ok.mp h6
  obtain ⟨u7, s7, h7, h⟩ := run_bind_ok.mp h
  exact ⟨t, s1, s7, h1, h7, h⟩

/-- The message sent by hand rides in nothing when its paste begins again. -/
theorem heldAgain_alone {x : Message} (hx : x ∈ ((s.letGo id).heldAgain id held t).messages.rows)
    (it : x.id = id) : x.carriedBy = none := by
  obtain ⟨x1, hx1, rfl⟩ := Table.mem_alter.mp hx
  obtain ⟨x0, hx0, rfl⟩ := Table.mem_alter.mp hx1
  rw [altered_message_id, altered_message_id] at it
  have e0 : Table.altered (fun m => m.id == id) (fun m => { m with carriedBy := none }) x0 =
      Keyed.rekey x0.id { x0 with carriedBy := none } := altered_of (by simp [it])
  rw [e0, altered_not (by simp [Keyed.rekey, it])]
  rfl

/-- What a paste begun by hand leaves of a row, where its message rides in nothing. -/
def BegunByHand (id : Nat) (x x' : Message) : Prop :=
  x.id ≠ id ∧ x' = x ∨ x.id = id ∧ x.carriedBy = none ∧ x'.carriedBy = none

theorem begunByHand_rows (alone : ∀ y ∈ s.messages.rows, y.id = id → y.carriedBy = none) :
    ∀ x' ∈ (s.begunByHand id t).messages.rows, ∃ x ∈ s.messages.rows, x'.id = x.id ∧
      Lodged x x' ∧ BegunByHand id x x' := by
  intro x' hx'
  obtain ⟨x, hx, rfl⟩ := Table.mem_alter.mp hx'
  refine ⟨x, hx, altered_message_id _ _ x, altered_lodged fun _ => ⟨rfl, .inl rfl⟩, ?_⟩
  by_cases it : x.id = id
  · refine .inr ⟨it, alone x hx it, ?_⟩
    rw [altered_of (show (x.id == id) = true from beq_iff_eq.mpr it)]
    exact alone x hx it
  · exact .inl ⟨it, altered_not (by simp [it])⟩

theorem begunByHand_ends {x : Excuse}
    (alone : ∀ y ∈ s.messages.rows, y.id = id → y.carriedBy = none) :
    s.Ends x (s.begunByHand id t) := by
  intro y hy y' hy' e c hc _ _ ended
  obtain ⟨y0, hy0, e0, -, row⟩ := begunByHand_rows alone y' hy'
  have same : y0 = y := Table.eq_of_key hy0 hy (e0.symm.trans e)
  subst same
  rcases row with ⟨-, rfl⟩ | ⟨-, -, none⟩
  · exact ended
  · rw [none] at hc
    cases hc

/-- Its carrier is aside until its arrival is confirmed. -/
theorem begunByHand_riding (alone : ∀ y ∈ s.messages.rows, y.id = id → y.carriedBy = none)
    (r : s.Riding hands) : (s.begunByHand id t).Riding hands (some id) := by
  refine riding_of_rows (s := s) (Nat.le_refl _) (begunByHand_rows alone) (fun x x' h sent => ?_)
    (fun x x' c c' hx hc _ rode e _ ride => ?_) r
  · exact h.elim (fun k => .inl (k.2 ▸ sent)) fun k => .inr k.2.2
  · have rest : x' = x := hx.elim (fun k => k.2) fun k => by
      rw [k.2.1] at rode
      cases rode
    subst rest
    refine ride.lies.imp (fun settled => ?_) fun p => p
    rcases hc with ⟨-, rfl⟩ | ⟨it, -⟩
    · exact .inl (settled.resolve_right fun k => by cases k)
    · exact .inr (congrArg some (it.symm.trans e.symm))

/-- **A paste sent by hand holds what rides to its rule**, but for the rows it names. -/
theorem sentByHand_tight (h : (sentByHand id held m receipt telling).run s = .ok (c, s')) :
    Tight (.sentByHand id held) s s' := by
  obtain ⟨t, s1, s2, h1, h2, h3⟩ := sentByHand_ok h
  have k1 : Kept .none s s1 := (now.within h1).toKept
  have k2 : Kept .none s1 (s1.letGo id) := ((setMessage id _).within rfl).toKept
  have k3 := (desk_heldAgain (s1.letGo id) id held t).toKept
  have k4 := (desk_begunByHand ((s1.letGo id).heldAgain id held t) id held t).toKept
  have k5 : Kept .none _ s2 := ((log m.project (.deliveryBegun id)).within h2).toKept
  have k6 : Kept .none s2 s' := ((confirmHeld id _ telling).within h3).toKept
  have before := ((k1.trans k2).excused (.sentByHand id held)).trans k3
  have after := (k5.trans k6).excused (.sentByHand id held)
  have alone : ∀ y ∈ ((s1.letGo id).heldAgain id held t).messages.rows, y.id = id →
      y.carriedBy = none := fun y hy => heldAgain_alone hy
  refine ⟨?_, fun hands hj r => ?_⟩
  · have ends : s.Ends { Excuse.sentByHand id held with loose := True } s' :=
      Ledger.Ends.trans (before.loosened.trans k4) after.loosened
        (Ledger.Ends.trans before.loosened k4 (before.tight fun p => p).ended
          (begunByHand_ends alone))
        (after.tight fun p => p).ended
    exact ends
  · have r4 := begunByHand_riding (t := t) alone ((before.tight fun p => p).riding hands hj r)
    exact confirmHeld_riding h3 (by simp) (r4.of_eq (log_messages _ h2) k5.human)

end ByHand

/-- `confirm_sent_by_hand`: the window's record shows a paste whose Enter was withheld. -/
def confirmSentByHand (id : Nat) (held : List Nat) (receipt : Receipt) (telling : Bool) :
    ExcusedM (.sentByHand id held) (Option Message) := inWrite do
  let s ← state
  match (s.messages.get? id).filter fun m =>
      m.state == .cancelled || m.state == .failed || m.state == .queued with
  | none => pure none
  | some m => do
    let pasted := m :: (held.filter (· != id)).filterMap s.messages.get?
    let confirmed ← tightenIn (.sentByHand id held) (sentByHand id held m receipt telling)
      sentByHand_tight
    arrivedAfterAll pasted
    pure (some confirmed)

/-! ## 3. Tried again, or given up -/

/-- Whether a message on its way goes no further: the brief of a step done, or of a task failed
    meanwhile. -/
def goesNoFurther (id : Nat) (m : Message) : DeskM Bool := do
  match ← messageTask id with
  | none => pure false
  | some task => do
    let late ← withdrawnLate m task
    if late then pure true
    else if m.kind == .task && task.state == .failed then do
      let _ ← cancelMessage id s!"T-{task.number} failed before it landed"
      pure true
    else pure false

/-- Withdrawn because it tells what is no longer so. -/
def withdrawnMeanwhile (m : Message) : DeskM Bool := do
  let onItsWay ← withdrawnOnItsWay m
  if onItsWay then pure true else withdrawnIfStale m

/-- Queued again. -/
def giveBack (m : Message) (reason : String) (refund logged : Bool) : DeskM Unit := do
  let s ← state
  withdrawStaleAmong ((s.carried m.id).map (·.id))
  setMessagesIn .delivering (fun x => x.id == m.id) fun x =>
    { x.to .queued with
      reason := some reason, attempts := x.attempts - if refund then 1 else 0, handedAt := none }
  setMessages (fun x => x.carriedBy == some m.id && x.state == .queued)
    fun x => { x with handedAt := none }
  doWhen logged (log m.project (.other "delivery.retried" (some m.id)))
  let s ← state
  -- under a carrier that cannot carry it any more
  setMessages (fun x => x.id == m.id && s.messages.rows.any fun c => x.carriedBy == some c.id &&
      !(c.state == .queued || c.state == .gated))
    fun x => { x with carriedBy := none }

/-- `retry_delivery`. -/
def retryDelivery (id : Nat) (reason : String) (refund logged : Bool) : DeskM Message := do
  requireText reason "reason" 1000
  inWrite do
    let m ← requireMessage id .delivering
    let noFurther ← goesNoFurther id m
    if noFurther then knownMessage id
    else do
      let gone ← withdrawnMeanwhile m
      if gone then knownMessage id
      else do
        giveBack m reason refund logged
        let settled ← settleKeptRead id .queued
        if settled then knownMessage id
        else do
          adopt id
          settleAnswered id
          knownMessage id

/-- What a delivery given up came to. -/
inductive GivenUp where
  | failed | kept | withdrawn | paused
  deriving DecidableEq, Repr

/-- What becomes of a message about a task before its delivery is failed for good. -/
def givenUpFor (m : Message) (task : Task) (reason : String) : LedgerM (Option GivenUp) := do
  let late ← withdrawnLate m task
  if late then pure (some .withdrawn)
  else do
    let kept ← keptForResume m task reason
    if kept then pure (some .kept)
    else do
      let paused ← pauseAgain m task reason
      pure (if paused then some .paused else none)

/-- A brief that failed fails its task, still queued, with it. -/
def failQueued (m : Message) (task : Task) : LedgerM Unit :=
  doWhen (m.kind == .task && task.state == .queued) (do
    moveTask task .failed
    releaseReady task.project)

/-- What a delivery failed for good does to its task. -/
def failedFor (m : Message) (task : Task) (reason : String) : LedgerM Unit := do
  releaseCarried task.id
  failQueued m task
  failFor m task
  doWhen (m.kind == .answer) (tellFailedAnswer m task reason)

/-- And to the task it is about, if it is about one. -/
def failedForTask (m : Message) (reason : String) : Option Task → LedgerM Unit
  | some task => failedFor m task reason
  | none => pure ()

/-- The message fails for good, but where it was withdrawn or read meanwhile. -/
def failMessage (m : Message) (reason : String) : LedgerM GivenUp := do
  let gone ← withdrawnMeanwhile m
  if gone then pure .withdrawn
  else do
    let settled ← settleKeptRead m.id .delivering
    if settled then pure .withdrawn
    else do
      setFailed m reason
      logFailed m
      let task ← messageTask m.id
      failedForTask m reason task
      pure .failed

/-- What became of the message for its task's sake, if anything. -/
def settledFor (m : Message) (reason : String) : Option Task → LedgerM (Option GivenUp)
  | some task => givenUpFor m task reason
  | none => pure none

/-- What became of it, or its failure. -/
def orFailed (m : Message) (reason : String) : Option GivenUp → LedgerM GivenUp
  | some what => pure what
  | none => failMessage m reason

/-- `give_up_delivery`. -/
def giveUpDelivery (id : Nat) (reason : String) : LedgerM (Message × GivenUp) := do
  requireText reason "reason" 1000
  inWrite do
    let m ← requireMessage id .delivering
    let task ← messageTask id
    let settled ← settledFor m reason task
    let what ← orFailed m reason settled
    let m ← knownMessage id
    pure (m, what)

/-! ## 4. The human's gate -/

/-- A message that waits for the human is read. -/
def readHere (id : Nat) : LooseM Unit := do
  let _ ← requireMessage id .queued
  let t ← now
  setLooselyIn .queued (fun x => x.id == id) fun x => { x.to .read with deliveredAt := some t }

/-- The human's message is read: the message as it was. -/
def seen (id : Nat) : LooseM Message := do
  let m ← knownMessage id
  let s ← state
  require (s.roleOf m.recipient == some .human)
    (.refused "not-for-the-human" s!"message {id} is delivered to a pane" 409)
  doWhen (m.state != .read) (readHere id)
  pure m

theorem readHere_tight {id : Nat} {u : Unit} {s s' : Ledger}
    (h : (readHere id).run s = .ok (u, s'))
    (here : ∀ m ∈ s.messages.rows, m.id = id → s.Human m.recipient) : Tight .none s s' := by
  obtain ⟨m, s1, h1, h⟩ := run_bind_ok.mp h
  obtain ⟨rfl, -⟩ := requireMessage_ok h1
  obtain ⟨t, s2, h2, h⟩ := run_bind_ok.mp h
  have d : Desk .none s s2 := lifted_within h2
  have rows := now_messages (run_lifted now s ▸ h2)
  have k : Kept { loose := True } s2 s' := ((setLooselyIn _ _ _).within h).toKept
  have e := setLooselyIn_ok h
  have steady : Tight .none s2 s' := by
    rw [e]
    refine tight_withMessages (fun _ _ _ => ⟨rfl, .inl rfl⟩) fun x hx p => ?_
    simp only [Bool.and_eq_true, beq_iff_eq] at p
    exact .seen (d.human _ (here x (rows ▸ hx) p.2)) p.1 rfl
  exact (d.tight fun p => p).trans d.toKept (k.tightened steady) steady

theorem seen_tight {id : Nat} {m : Message} {s s' : Ledger}
    (h : (seen id).run s = .ok (m, s')) : Tight .none s s' := by
  obtain ⟨m', s1, h1, h⟩ := run_bind_ok.mp h
  obtain ⟨rfl, hm, it⟩ := knownMessage_ok h1
  obtain ⟨s2, s3, h2, h⟩ := run_bind_ok.mp h
  obtain ⟨rfl, rfl⟩ := run_state_ok.mp h2
  obtain ⟨u3, s3, h3, h⟩ := run_bind_ok.mp h
  obtain ⟨human, rfl⟩ := run_require_ok.mp h3
  obtain ⟨u4, s4, h4, h⟩ := run_bind_ok.mp h
  obtain ⟨-, rfl⟩ := run_pure_ok.mp h
  rcases run_doWhen_ok.mp h4 with ⟨-, h4⟩ | ⟨-, rfl⟩
  · refine readHere_tight h4 fun x hx same => ?_
    rw [Table.eq_of_key hx hm (same.trans it.symm)]
    obtain ⟨p, hp, role⟩ := Option.map_eq_some_iff.mp (beq_iff_eq.mp human)
    obtain ⟨hp, e⟩ := Table.get?_eq_some.mp hp
    exact ⟨p, hp, e, role⟩
  · exact .of_eq rfl fun _ h => h

/-- `mark_read`: the human read a message in the app. -/
def markRead (id : Nat) : DeskM Message := inWrite do
  let m ← tighten (seen id) seen_tight
  if m.state == .read then pure m
  else do
    log m.project (.other "message.read" (some id))
    knownMessage id

theorem desk_approved (s : Ledger) (id : Nat) :
    Desk { opens := (· = id), loose := True } s
      (s.withMessages (fun m => m.id == id) fun m => m.to .queued) := by
  refine ⟨kept_withMessages s _ _ (fun m _ => ?_) fun hl => absurd trivial hl,
    board_withMessages s _ _ fun m => ?_⟩
  · unfold Table.altered
    split
    · next hp =>
      exact ⟨rfl, fun _ hc _ _ => hc, fun _ ho => absurd (beq_iff_eq.mp hp) ho, fun _ _ => rfl⟩
    · exact Handled.refl _ s m
  · unfold Table.altered
    split <;> rfl

/-- A message held at the gate waits in its queue: the message as it was held. -/
def passedOn (id : Nat) (by_ : String) :
    ExcusedM { opens := (· = id), loose := True } Message := do
  let m ← requireMessage id .gated
  let _ ← participantByHandle m.project by_
  write (fun s => s.withMessages (fun m => m.id == id) fun m => m.to .queued)
    fun s => desk_approved s id
  pure m

theorem passedOn_ok {id : Nat} {by_ : String} {m : Message} {s s' : Ledger}
    (h : (passedOn id by_).run s = .ok (m, s')) : m ∈ s.messages.rows ∧ m.id = id ∧
      m.state = .gated ∧ s' = s.withMessages (fun m => m.id == id) fun m => m.to .queued := by
  obtain ⟨m', s1, h1, h⟩ := run_bind_ok.mp h
  obtain ⟨rfl, hm, it, gated⟩ := requireMessage_ok h1
  obtain ⟨p, s2, h2, h⟩ := run_bind_ok.mp h
  obtain ⟨rfl, -⟩ := participantByHandle_ok h2
  obtain ⟨u3, s3, h3, h⟩ := run_bind_ok.mp h
  obtain rfl := run_write_ok.mp h3
  obtain ⟨rfl, rfl⟩ := run_pure_ok.mp h
  exact ⟨hm, it, gated, rfl⟩

theorem passedOn_tight {id : Nat} {by_ : String} {m : Message} {s s' : Ledger}
    (h : (passedOn id by_).run s = .ok (m, s')) : Tight { opens := (· = id) } s s' := by
  obtain ⟨hm, it, gated, rfl⟩ := passedOn_ok h
  refine tight_withMessages (fun _ _ _ => ⟨rfl, .inl rfl⟩) fun x hx same => ?_
  rw [Table.eq_of_key hx hm ((beq_iff_eq.mp same).trans it.symm)]
  exact .passed gated fun k => by cases k

/-- **`approve_message`**: the human passes a gated message on. -/
def approveMessage (id : Nat) (by_ : String) : ExcusedM { opens := (· = id) } Message := inWrite do
  let m ← tightenIn { opens := (· = id) } (passedOn id by_) passedOn_tight
  log m.project (.other "message.approved" (some id))
  adopt id
  knownMessage id

/-- `reopen_question`: a question withdrawn from the gate because it was answered there is held
    again. -/
def reopenQuestion (question : Nat) : DeskM Unit :=
  setMessages (fun m => m.id == question && m.kind == .question && m.state == .cancelled &&
      m.reason.any (opens "answered by @"))
    (fun m => { m.to .gated with reason := none }) (by
      intro m hp
      simp only [Bool.and_eq_true, beq_iff_eq] at hp
      exact ⟨⟨⟨rfl, .inl rfl⟩, rfl, fun _ k => ⟨.inl rfl, k.alone⟩, fun _ => rfl⟩,
        fun _ => .question hp.1.1.2 fun k => by cases k⟩)

/-- What is said of a task message declined: its task is called off. -/
def declineTask (m : Message) (task : Task) (by_ : String) : LedgerM (String × String) := do
  let requester ← participantRow task.requester
  let off ← callOff m.project task.number by_ .declined
  let lead := s!"@{by_} declined T-{task.number} ({task.title}). It is cancelled."
  let s ← state
  let word := s!"{lead}{saidTo s off.dropped requester.handle}"
  tellTheOthers task off.dropped lead [by_, requester.handle]
  pure (requester.handle, word)

/-- The question an answer was for waits for another, where it was answered before its own
    delivery. -/
def reopenAnswered (m : Message) : DeskM Unit :=
  match m.replyTo with
  | some question => reopenQuestion question
  | none => pure ()

/-- Who is told of a message declined, and what. -/
def wordOfDeclined (m : Message) (by_ : String) (declined : Option String × String) :
    Option Task → LedgerM (Option String × String)
  | some task =>
    if m.kind == .task then (fun r => (some r.1, r.2)) <$> declineTask m task by_
    else pure declined
  | none => pure declined

/-- `decline_message`: the human declines a gated message, and whoever sent it is told. -/
def declineMessage (id : Nat) (by_ : String) : LedgerM Message := inWrite do
  let m ← requireMessage id .gated
  let _ ← participantByHandle m.project by_
  require (m.kind == .task || m.kind == .answer)
    (.refused "not-declinable" s!"a {m.kind.word} is passed on, not declined" 409)
  withdraw id s!"declined by @{by_}"
  log m.project (.other "message.declined" (some id))
  doWhen (m.kind == .answer) (reopenAnswered m)
  let task ← messageTask id
  let s ← state
  let replyTo := (m.replyTo.map toString).getD "null"
  let declined := s!"@{by_} declined your answer to m-{replyTo}. Answer it again: cf answer m-{replyTo} \"…\""
  let (told, word) ← wordOfDeclined m by_ (m.sender.map s.handleOf, declined) task
  doWhen (told != some by_) (do
    let _ ← send m.project
      { sender := some by_, whom := told.getD "null", task := task.map (·.number), body := word }
    pure ())
  knownMessage id

end ConsensFlow
