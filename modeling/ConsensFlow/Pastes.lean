/-
  File:      ConsensFlow/Pastes.lean
  Subject:   PASTES: what rode in a paste when it began is all that arrives with it.

  * `Op.excuse`, **`Op.kept`** -- what each call may do to the mail beyond the rule, and that it
    does no more; only the removal of a project takes messages away;
  * `Call.HandsIn` -- the human's own sending, which names the rows the window's box held;
  * **`paste_never_grows`** -- a row that a confirmed paste delivers rode in it when the paste
    began, unless it was handed in by hand.
-/
import ConsensFlow.Windows

namespace ConsensFlow

open Lib Txn

/-! ## 1. What a call keeps of the mail -/

/-- What a call may do to the mail beyond the rule. -/
def Op.excuse : Op → Excuse
  | desk _ => .none
  | board _ => .none
  | approveMessage id _ => { opens := (· = id) }
  | confirmSentByHand id held _ _ => .sentByHand id held
  | editTask _ _ _ _ => { rewrites := fun _ => True }
  | setGate project _ => { regates := (· = project) }
  | deleteProject _ => .none

section Kept

variable {s s' : Ledger}

theorem deleteProject_without {project : Nat} {r : Project}
    (h : (deleteProject project).run s = .ok (r, s')) : s' = s.without project := by
  simp only [deleteProject, run_inWrite, projectRow, run_bind_ok, run_require_ok, run_write_ok,
    run_pure_ok] at h
  obtain ⟨p, s1, h1, u2, s2, ⟨-, rfl⟩, u3, s3, rfl, -, rfl⟩ := h
  obtain ⟨s0, s4, h4, h1⟩ := h1
  obtain ⟨rfl, rfl⟩ := run_state_ok.mp h4
  obtain ⟨-, rfl⟩ := run_found_ok.mp h1
  rfl

/-- **A call that is not refused handles the mail as its excuse lets it**, or removes a project. -/
theorem Op.kept {op : Op} (h : op.attempt s = .ok s') :
    Kept op.excuse s s' ∨ ∃ project, op = .deleteProject project ∧ s' = s.without project := by
  cases op with
  | desk op =>
    obtain ⟨u, h⟩ := snd_ok h
    exact Or.inl (op.program.within h).toKept
  | board op =>
    obtain ⟨u, h⟩ := snd_ok h
    exact Or.inl (op.program.within h)
  | approveMessage i b =>
    obtain ⟨m, h⟩ := snd_ok h
    exact Or.inl ((ConsensFlow.approveMessage i b).within h).toKept
  | confirmSentByHand i k r t =>
    obtain ⟨m, h⟩ := snd_ok h
    exact Or.inl ((ConsensFlow.confirmSentByHand i k r t).within h).toKept
  | editTask p n b e =>
    obtain ⟨r, h⟩ := snd_ok h
    exact Or.inl ((editTaskWith p n b e).within h)
  | setGate p g =>
    obtain ⟨r, h⟩ := snd_ok h
    exact Or.inl ((ConsensFlow.setGate p g).within h)
  | deleteProject p =>
    obtain ⟨r, h⟩ := snd_ok h
    exact Or.inr ⟨p, rfl, deleteProject_without h⟩

/-- A message that is there when a project went was there before, as it was. -/
theorem mem_without {project : Nat} {m : Message} (h : m ∈ (s.without project).messages.rows) :
    m ∈ s.messages.rows ∧ m.project ≠ project := by
  obtain ⟨hm, hk⟩ := Table.mem_keep.mp h
  simp only [Bool.and_eq_true, bne_iff_ne] at hk
  exact ⟨hm, hk.1.1.1⟩

end Kept

/-! ## 2. The rows of a paste -/

/-- The human's own sending of the paste of `carrier`, which names `row` among those it held. -/
def Call.HandsIn (c : Call) (carrier row : Nat) : Prop :=
  ∃ held receipt telling, c.op = .confirmSentByHand carrier held receipt telling ∧ row ∈ held

/-- Where the paste of `carrier` has begun, the rows that ride in it are among those that rode in
    it in `s1`, but for `hands`; and each was in its queue there, or is over now, but for those
    `handed` before. -/
def Ledger.RidesFrom (s1 : Ledger) (carrier : Nat) (hands handed : Nat → Prop) (s : Ledger) :
    Prop :=
  carrier < s.messages.next ∧ ∀ c ∈ s.messages.rows, c.id = carrier → s.Begun carrier ∧
    ∀ x ∈ s.messages.rows, x.carriedBy = some carrier → ¬ hands x.id →
      ∃ x1 ∈ s1.messages.rows, x1.id = x.id ∧ x1.carriedBy = some carrier ∧
        (¬ handed x.id → x1 ∈ s1.carried carrier ∨ x.Over)

section Pastes

variable {s s' s1 : Ledger} {carrier : Nat} {hands handed : Nat → Prop}

theorem Ledger.RidesFrom.kept (h : s1.RidesFrom carrier hands handed s) {x : Excuse}
    (k : Kept x s s') (t : Tight x s s') (hx : ∀ i, x.joins i carrier → hands i) :
    s1.RidesFrom carrier hands handed s' := by
  refine ⟨Nat.lt_of_lt_of_le h.1 k.ids, fun c hc e => ?_⟩
  obtain ⟨c0, hc0, e0, -⟩ := k.old c hc (by rw [e]; exact h.1)
  obtain ⟨hb, hr⟩ := h.2 c0 hc0 (e0.trans e)
  refine ⟨k.begun hb, fun m hm hcar hh => ?_⟩
  rcases Nat.lt_or_ge m.id s.messages.next with hlt | hge
  · -- it was there: it joins no paste that has begun, and stays over
    obtain ⟨m0, hm0, em, f⟩ := k.old m hm hlt
    have hj : ¬ x.joins m0.id carrier := fun j => hh (em ▸ hx _ j)
    obtain ⟨x1, hx1, e1, c1, rode⟩ := hr m0 hm0 (f.unjoined carrier hcar hb hj) (em ▸ hh)
    refine ⟨x1, hx1, e1.trans em, c1, fun hn => (rode (em ▸ hn)).imp_right fun ended => ?_⟩
    exact t.ended m0 hm0 m hm em.symm carrier hcar hb hj ended
  · exact absurd (hx _ ((k.fresh m hm hge).unjoined carrier hcar hb)) hh

theorem Ledger.RidesFrom.without (h : s1.RidesFrom carrier hands handed s) (project : Nat) :
    s1.RidesFrom carrier hands handed (s.without project) := by
  refine ⟨h.1, fun c hc e => ?_⟩
  obtain ⟨hc0, hp⟩ := mem_without hc
  obtain ⟨⟨m, hm, em, ev, hev, hpr, hw⟩, hr⟩ := h.2 c hc0 e
  have hmc : m = c := Table.eq_of_key hm hc0 (em.trans e.symm)
  subst hmc
  refine ⟨⟨m, hc, em, ev, Table.mem_keep.mpr ⟨hev, ?_⟩, hpr, hw⟩,
    fun y hy hcar hh => hr y (mem_without hy).1 hcar hh⟩
  rw [bne_iff_ne, hpr]
  exact hp

theorem Op.tight {op : Op} : ¬ op.excuse.loose := by
  cases op <;> exact fun h => h

/-- A call excused for rows that join a carrier names them by hand. -/
theorem Call.handsIn_of_joins {c : Call} {i d : Nat} (h : c.op.excuse.joins i d) :
    c.HandsIn d i := by
  cases ho : c.op with
  | confirmSentByHand id held r t =>
    rw [ho] at h
    obtain ⟨rfl, hi⟩ : d = id ∧ i ∈ held := h
    exact ⟨held, r, t, ho, hi⟩
  | _ =>
    rw [ho] at h
    exact h.elim

/-- One call: a row joins a paste that has begun only by hand. -/
theorem Ledger.RidesFrom.step (h : s1.RidesFrom carrier hands handed s) (c : Call)
    (hc : ∀ row, c.HandsIn carrier row → hands row) :
    s1.RidesFrom carrier hands handed (c.step s) := by
  unfold Call.step
  cases ha : c.op.attempt (s.at_ c.clock) with
  | error e => exact h
  | ok s' =>
    have h0 : s1.RidesFrom carrier hands handed (s.at_ c.clock) := h
    rcases Op.kept ha with k | ⟨project, -, rfl⟩
    · exact h0.kept k (k.tight Op.tight) fun i hj => hc i (Call.handsIn_of_joins hj)
    · exact h0.without project

/-- A whole run of calls. -/
theorem Ledger.RidesFrom.after (h : s1.RidesFrom carrier hands handed s) (calls : List Call)
    (hc : ∀ c ∈ calls, ∀ row, c.HandsIn carrier row → hands row) :
    s1.RidesFrom carrier hands handed (s.after calls) := by
  induction calls generalizing s with
  | nil => exact h
  | cons c calls ih =>
    refine ih (h.step c (hc c List.mem_cons_self)) fun d hd => hc d (List.mem_cons_of_mem _ hd)

/-! ### What rides, in every ledger -/

/-- A project removed takes the human of no message that stays. -/
theorem Ledger.Riding.without (h : s.Riding hands) (project : Nat) :
    (s.without project).Riding hands := by
  refine ⟨fun x hx => h.alone x (mem_without hx).1, fun x hx d hd hn => ?_⟩
  obtain ⟨hx0, keeps⟩ := Table.mem_keep.mp hx
  obtain ⟨lt, ride⟩ := h.rides x hx0 d hd hn
  refine ⟨lt, fun c hc e => ?_⟩
  have r := ride c (mem_without hc).1 e
  refine ⟨r.kind, r.whom, r.asked, r.lies.imp (fun p => p) fun ⟨p, hp, ep, human⟩ => ?_⟩
  refine ⟨p, Table.mem_keep.mpr ⟨hp, ?_⟩, ep, human⟩
  simp only [Bool.and_eq_true, Bool.not_eq_true'] at keeps
  have whom : s.isOf project x.recipient = false := keeps.1.1.2
  rw [bne_iff_ne]
  intro same
  have got : s.participants.get? x.recipient = some p := Table.get?_eq_some.mpr ⟨hp, ep⟩
  simp [Ledger.isOf, got, same] at whom

theorem Ledger.Riding.step (h : s.Riding hands) (c : Call)
    (hc : ∀ d row, c.HandsIn d row → hands row) : (c.step s).Riding hands := by
  unfold Call.step
  cases ha : c.op.attempt (s.at_ c.clock) with
  | error e => exact h
  | ok s' =>
    have h0 : (s.at_ c.clock).Riding hands := h.of_eq rfl fun _ k => k
    rcases Op.kept ha with k | ⟨project, -, rfl⟩
    · exact (k.tight Op.tight).riding hands (fun i d hj => hc d i (Call.handsIn_of_joins hj)) h0
    · exact h0.without project

/-- A whole run of calls: each row that rides in a paste, and no call named by hand, is one that
    may. -/
theorem Ledger.Riding.after (h : s.Riding hands) (calls : List Call)
    (hc : ∀ c ∈ calls, ∀ d row, c.HandsIn d row → hands row) : (s.after calls).Riding hands := by
  induction calls generalizing s with
  | nil => exact h
  | cons c calls ih =>
    refine ih (h.step c (hc c List.mem_cons_self)) fun d hd => hc d (List.mem_cons_of_mem _ hd)

theorem Ledger.Riding.empty : Ledger.empty.Riding hands :=
  ⟨fun _ hx => (List.not_mem_nil hx).elim, fun _ hx => (List.not_mem_nil hx).elim⟩

/-! ### Begun, and confirmed -/

theorem mem_withMessages {p : Message → Bool} {f : Message → Message} {x : Message}
    (hx : x ∈ s.messages.rows) (hp : p x = false) : x ∈ (s.withMessages p f).messages.rows := by
  refine Table.mem_alter.mpr ⟨x, hx, ?_⟩
  rw [Table.altered, if_neg (by rw [hp]; exact Bool.false_ne_true)]

/-- Receipts move a task at work to a state of work. -/
theorem reconciled_active {t : Task} {to_ : TaskState} (h : s.reconciled t = some to_) :
    t.state.held = true ∧ to_.active = true := by
  unfold Ledger.reconciled at h
  split at h
  · cases h
  · cases hst : t.state <;> rw [hst] at h <;> simp only [reduceCtorEq] at h
    · split at h
      · cases h
      · split at h <;> cases h <;> exact ⟨rfl, rfl⟩
    · split at h <;> cases h
      exact ⟨rfl, rfl⟩
    · split at h <;> cases h
      exact ⟨rfl, rfl⟩

/-- What is said of a move from work to work: the log says so, and nothing else does. -/
theorem afterMove_working {t : Task} {to_ : TaskState} {u : Unit}
    (h : (afterMove t to_).run s = .ok (u, s')) (hf : t.state.held = true)
    (ht : to_.active = true) : s'.messages = s.messages := by
  have hn : (!to_.active) = false := by rw [ht]; rfl
  have hfa : (t.state == .failed) = false := by cases hs : t.state <;> simp_all [TaskState.held]
  have hop : (t.state == .opened || t.state == .paused) = false := by
    cases hs : t.state <;> simp_all [TaskState.held]
  unfold afterMove at h
  rw [hn, hfa, hop] at h
  simp only [doWhen, Bool.false_and, Bool.false_eq_true, if_false, run_bind_ok, run_pure_ok] at h
  obtain ⟨u2, s2, ⟨-, rfl⟩, u3, s3, ⟨-, rfl⟩, -, rfl⟩ := h
  rfl

theorem logOf_messages {project : Nat} {what : What} {u : Unit}
    (h : (logOf project what).run s = .ok (u, s')) : s'.messages = s.messages := by
  obtain ⟨t, s1, h1, h2⟩ := run_bind_ok.mp h
  have m1 : s1.messages = s.messages := now_messages (s := s) h1
  rw [← run_write_ok.mp h2]
  exact m1

/-- A move from work to work leaves the mail as it is. -/
theorem moveTask_working {t : Task} {to_ : TaskState} {d : Detail} {u : Unit}
    (h : (moveTask t to_ d).run s = .ok (u, s')) (hf : t.state.held = true)
    (ht : to_.active = true) : s'.messages = s.messages := by
  obtain ⟨n, s1, h1, h⟩ := run_bind_ok.mp h
  obtain ⟨u2, s2, h2, h⟩ := run_bind_ok.mp h
  have m2 : s2.messages = s1.messages := by rw [(updateTask_ok h2).1]
  obtain ⟨u3, s3, h3, h⟩ := run_bind_ok.mp h
  have m4 : s'.messages = s3.messages := afterMove_working h hf ht
  rw [m4, logOf_messages h3, m2, now_messages h1]

/-- A move between the states of work leaves the mail as it is. -/
theorem reconcile_messages {task : Nat} {u : Unit} (h : (reconcile task).run s = .ok (u, s')) :
    s'.messages = s.messages := by
  have h : (reconcileMove task).run s = .ok (u, s') := h
  simp only [reconcileMove, taskById, run_bind_ok, run_state_ok, run_found_ok] at h
  obtain ⟨t, s1, ⟨s0, s2, ⟨rfl, rfl⟩, ht, rfl⟩, s3, s4, ⟨rfl, rfl⟩, h⟩ := h
  split at h
  · obtain ⟨-, rfl⟩ := run_pure_ok.mp h
    rfl
  · next to_ hto =>
    obtain ⟨hf, ha⟩ := reconciled_active hto
    exact moveTask_working h hf ha

theorem reconcileOf_messages {id : Nat} {u : Unit} (h : (reconcileOf id).run s = .ok (u, s')) :
    s'.messages = s.messages := by
  obtain ⟨t, s1, h1, h⟩ := run_bind_ok.mp h
  obtain ⟨rfl, -⟩ := messageTask_ok h1
  cases t with
  | none =>
    obtain ⟨-, rfl⟩ := run_pure_ok.mp h
    rfl
  | some t => exact reconcile_messages h

/-- A queued row is not touched by a note of a role read whole. -/
theorem toldOfRead_queued {id : Nat} {kept : Option (Read × Option Nat)} {u : Unit} {x : Message}
    (h : (toldOfRead id kept).run s = .ok (u, s')) (hx : x ∈ s.messages.rows)
    (hq : x.state = .queued) : x ∈ s'.messages.rows := by
  cases kept with
  | none =>
    obtain ⟨-, rfl⟩ := run_pure_ok.mp h
    exact hx
  | some kept =>
    obtain ⟨m, s1, h1, h⟩ := run_bind_ok.mp h
    obtain ⟨rfl, -⟩ := knownMessage_ok h1
    obtain ⟨s2, s3, h2, h⟩ := run_bind_ok.mp h
    obtain ⟨rfl, rfl⟩ := run_state_ok.mp h2
    rcases run_doWhen_ok.mp h with ⟨-, h⟩ | ⟨-, rfl⟩
    · obtain ⟨u4, s4, h4, h⟩ := run_bind_ok.mp h
      simp only [setMessagesIn, setMessages, run_write_ok] at h4
      subst h4
      have hx4 := mem_withMessages (p := fun y => y.state == .delivered && y.id == m.id)
        (f := fun y => y.to .read) hx (by simp [hq])
      obtain ⟨u5, s5, h5, h⟩ := run_bind_ok.mp h
      rw [← log_messages ⟨rfl, rfl⟩ h5] at hx4
      obtain ⟨s6, s7, h6, h⟩ := run_bind_ok.mp h
      obtain ⟨rfl, rfl⟩ := run_state_ok.mp h6
      split at h
      · rcases run_doWhen_ok.mp h with ⟨-, h⟩ | ⟨-, rfl⟩
        · simp only [setConversationRoleText, run_inWrite, updateConversations, run_write_ok] at h
          subst h
          exact hx4
        · exact hx4
      · obtain ⟨-, rfl⟩ := run_pure_ok.mp h
        exact hx4
    · exact hx

/-- A queued row that does not ride in a paste confirmed stays as it is. -/
theorem confirmDelivery_queued {id : Nat} {receipt : Option Receipt} {m x : Message}
    (h : (confirmDelivery id receipt).run s = .ok (m, s')) (hx : x ∈ s.messages.rows)
    (hq : x.state = .queued) (hc : x.carriedBy ≠ some id) : x ∈ s'.messages.rows := by
  obtain ⟨m0, s1, h1, h⟩ := run_bind_ok.mp h
  obtain ⟨-, -, -, rows⟩ := arrive_rows h1
  have hx1 : x ∈ s1.messages.rows := by
    obtain ⟨x1, hx1, e1, -⟩ := (Txn.within _ h1).toKept.later hx
    obtain ⟨x0, hx0, e0, -, arrived⟩ := rows x1 hx1
    have same : x0 = x := Table.eq_of_key hx0 hx (e0.symm.trans e1)
    subst same
    cases arrived with
    | itself _ sent _ =>
      rw [hq] at sent
      cases sent
    | carried _ rides _ _ _ => exact absurd rides hc
    | late _ rides _ _ _ => exact absurd rides hc
    | other _ same => exact same ▸ hx1
  obtain ⟨u5, s5, h5, h⟩ := run_bind_ok.mp h
  rw [← log_messages ⟨rfl, rfl⟩ h5] at hx1
  obtain ⟨u6, s6, h6, h⟩ := run_bind_ok.mp h
  have hx6 := toldOfRead_queued h6 hx1 hq
  obtain ⟨u7, s7, h7, h⟩ := run_bind_ok.mp h
  rw [← reconcileOf_messages h7] at hx6
  obtain ⟨rfl, -⟩ := knownMessage_ok h
  exact hx6

/-- What a paste begins with: the rows in their queue that ride in it, its message on its way. -/
theorem beginDelivery_ok {id : Nat} {b : ConsensFlow.Begun}
    (h : (beginDelivery id).run s = .ok (b, s')) : b.carried = s'.carried id ∧ s'.Begun id ∧
      ∃ m ∈ s'.messages.rows, m.id = id ∧ m.state = .delivering ∧ ¬ s'.Human m.recipient := by
  have staff : s'.participants = s.participants :=
    congrArg Board.participants ((beginDelivery id).within h).board
  obtain ⟨m, s1, h1, h⟩ := run_bind_ok.mp h
  obtain ⟨hm, it, queued, -, pane, e1⟩ := putOnItsWay_ok h1
  obtain ⟨u2, s2, h2, h⟩ := run_bind_ok.mp h
  have e2 := log_messages ⟨rfl, rfl⟩ h2
  obtain ⟨e, he, hep, hew⟩ := log_logged ⟨rfl, rfl⟩ h2
  obtain ⟨m3, s3, h3, h⟩ := run_bind_ok.mp h
  obtain ⟨rfl, hm3, it3⟩ := knownMessage_ok h3
  obtain ⟨s4, s5, h4, h⟩ := run_bind_ok.mp h
  obtain ⟨rfl, rfl⟩ := run_state_ok.mp h4
  obtain ⟨rfl, rfl⟩ := run_pure_ok.mp h
  -- the message read back is the one that was put on its way
  have row : m3 = Table.altered (fun x => x.state == .queued && x.id == id)
      (fun x => { x.to .delivering with attempts := x.attempts + 1, reason := none }) m := by
    rw [e2, e1] at hm3
    obtain ⟨m0, hm0, rfl⟩ := Table.mem_alter.mp hm3
    rw [Table.eq_of_key hm0 hm (((altered_message_id _ _ m0).symm.trans it3).trans it.symm)]
  rw [altered_of (by simp [queued, it])] at row
  have sent : m3.state = .delivering := by rw [row]; rfl
  have project : m3.project = m.project := by rw [row]; rfl
  have recipient : m3.recipient = m.recipient := by rw [row]; rfl
  refine ⟨rfl, ⟨m3, hm3, it3, e, he, hep.trans project.symm, hew⟩, m3, hm3, it3, sent, ?_⟩
  rintro ⟨p, hp, ep, human⟩
  rw [staff] at hp
  refine pane ?_
  unfold Ledger.roleOf
  rw [Table.get?_eq_some.mpr ⟨hp, ep.trans recipient⟩, Option.map_some, human]

/-- After a paste began, the log says so, and what rides in it is what it began with. -/
theorem beginDelivery_rides {id : Nat} {b : ConsensFlow.Begun}
    (h : (beginDelivery id).run s = .ok (b, s')) (r : s.Riding handed) :
    s'.RidesFrom id hands handed s' := by
  have r' : s'.Riding handed := by
    have t := (((beginDelivery id).within h).toKept).tight fun p => p
    exact t.riding handed (fun _ _ => False.elim) r
  obtain ⟨-, begun, m, hm, it, sent, pane⟩ := beginDelivery_ok h
  refine ⟨it ▸ Table.below _ m hm, fun c hc e => ⟨begun, fun x hx rides _ =>
    ⟨x, hx, rfl, rides, fun hn => ?_⟩⟩⟩
  obtain ⟨-, ride⟩ := r'.rides x hx id rides hn
  have k := ride m hm it
  have lies := k.lies
  have unsettled : ¬ (m.Settled ∨ (none : Option Nat) = some m.id) := by
    rintro (settled | k)
    · refine settled.arrived ?_
      rw [sent]
      trivial
    · cases k
  unfold Message.Lies at lies
  cases hs : x.state <;> rw [hs] at lies
  case queued => exact .inl (List.mem_filter.mpr ⟨hx, by simp [rides, hs]⟩)
  case gated => exact lies.elim
  case delivering => exact lies.elim
  case delivered =>
    refine .inr ⟨k.asked, ?_⟩
    rw [hs]
    exact lies.2.resolve_right unsettled
  case read =>
    refine .inr ⟨k.asked, ?_⟩
    rw [hs]
    exact lies.resolve_right (k.whom ▸ pane)
  case failed =>
    refine .inr ⟨k.asked, ?_⟩
    rw [hs]
    trivial
  case cancelled =>
    refine .inr ⟨k.asked, ?_⟩
    rw [hs]
    trivial

/-- **A paste never grows after it began**: a row that the confirmation of a paste delivers out of
    its queue rode in that paste when it began, whatever calls came before it and between, but for
    the rows a sending by hand names; and it is among the rows its beginning answered. -/
theorem paste_never_grows {before calls : List Call} {id : Nat} {b : ConsensFlow.Begun}
    {s0 s1 s2 s3 : Ledger} {clock clock' : List Time} {receipt : Option Receipt} {m x x' : Message}
    (h0 : s0 = (Ledger.empty.after before).at_ clock)
    (h1 : (beginDelivery id).run s0 = .ok (b, s1)) (h2 : s2 = (s1.after calls).at_ clock')
    (h3 : (confirmDelivery id receipt).run s2 = .ok (m, s3)) (hx : x ∈ s2.messages.rows)
    (hq : x.state = .queued) (hx' : x' ∈ s3.messages.rows) (e : x'.id = x.id)
    (hd : x'.state = .delivered) (hh : ∀ c ∈ calls, ¬ c.HandsIn id x.id) :
    ∃ x1 ∈ s1.messages.rows, x1.id = x.id ∧ x1.carriedBy = some id ∧
      ((∀ c ∈ before, ∀ d, ¬ c.HandsIn d x.id) → x1 ∈ b.carried) := by
  -- a row that does not ride in it stays queued
  have hc : x.carriedBy = some id := by
    by_contra hc
    have k := Table.eq_of_key hx' (confirmDelivery_queued h3 hx hq hc) e
    rw [k, hq] at hd
    cases hd
  have r : s0.Riding fun i => ∃ c ∈ before, ∃ d, c.HandsIn d i := by
    subst h0
    exact (Ledger.Riding.empty.after before fun c hc d row hr => ⟨c, hc, d, hr⟩).of_eq rfl
      fun _ k => k
  have hr : s1.RidesFrom id (fun i => ∃ c ∈ calls, c.HandsIn id i)
      (fun i => ∃ c ∈ before, ∃ d, c.HandsIn d i) (s1.after calls) :=
    (beginDelivery_rides h1 r).after calls fun c hc row hr => ⟨c, hc, hr⟩
  obtain ⟨c, s4, h4, -⟩ := run_bind_ok.mp h3
  obtain ⟨hcm, hci, -⟩ := arrive_rows h4
  subst h2
  obtain ⟨x1, hx1, e1, rides, rode⟩ := (hr.2 c hcm hci).2 x hx hc fun ⟨d, hd, hk⟩ => hh d hd hk
  refine ⟨x1, hx1, e1, rides, fun hn => ?_⟩
  rw [(beginDelivery_ok h1).1]
  refine (rode fun ⟨c, hc, d, hk⟩ => hn c hc d hk).resolve_right fun ended => ?_
  have ended := ended.2
  rw [hq] at ended
  exact ended

end Pastes

/-- Words the chief tells the window of T-1. -/
def told (words : String) : Call :=
  ⟨.desk (.note 1 { sender := some "chief", whom := "worker-one", task := some 1, body := words }),
    []⟩

/-- T-1's brief is given its window, and words told to it ride in it. -/
def wordsTold : List Call := [opening, taskFor "first" [], assigned 1, told "and this"]

/-- More is told after the paste began, before it is confirmed: the words that began with it are
    those it delivers. -/
theorem paste_never_grows_wordsTold : ∃ b s1,
    (beginDelivery 1).run ((Ledger.empty.after wordsTold).at_ []) = .ok (b, s1) ∧
      ∃ x ∈ b.carried, x.id = 2 ∧ x.carriedBy = some 1 := by
  have h1 : ∃ b s1,
      (beginDelivery 1).run ((Ledger.empty.after wordsTold).at_ []) = .ok (b, s1) ∧
      ∃ m s3, (confirmDelivery 1 none).run ((s1.after [told "and that"]).at_ []) = .ok (m, s3) ∧
        ∃ x ∈ (s1.after [told "and that"]).messages.rows, x.state = .queued ∧ x.id = 2 ∧
          ∃ x' ∈ s3.messages.rows, x'.id = x.id ∧ x'.state = .delivered := by
    decide
  obtain ⟨b, s1, h1, m, s3, h3, x, hx, hq, hi, x', hx', e, hd⟩ := h1
  have unnamed {words : String} {d i : Nat} : ¬ (told words).HandsIn d i := by
    rintro ⟨held, r, t, ho, -⟩
    cases ho
  have h0 : (Ledger.empty.after wordsTold).at_ [] = (Ledger.empty.after wordsTold).at_ [] := rfl
  obtain ⟨x1, -, e1, rides, carried⟩ := paste_never_grows h0 h1 rfl h3 hx hq hx' e hd
    (fun c hc => List.mem_singleton.mp hc ▸ unnamed)
  refine ⟨b, s1, h1, x1, carried fun c hc d => ?_, e1.trans hi, rides⟩
  rintro ⟨held, r, t, ho, -⟩
  simp only [wordsTold, List.mem_cons, List.not_mem_nil, or_false] at hc
  rcases hc with rfl | rfl | rfl | rfl <;> cases ho

end ConsensFlow
