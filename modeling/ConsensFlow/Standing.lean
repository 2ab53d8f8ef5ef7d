/-
  File:      ConsensFlow/Standing.lean
  Subject:   WHAT STANDS, whatever calls are made: the rows that name one another, what is over, and
             the mail.

  * `Ledger.Fits` -- the tables fit together: what one row names is there, and of the same project;
    **`tables_fit`** -- so after any calls;
  * `Card.Lasts` -- what no edit takes from a card; **`over_stays_over`** -- an accepted task, a
    cancelled one and a deleted one stay so, with the window they had;
  * `Message.Lasts` -- what no call takes from a message; **`mail_stands`** -- no message is lost or
    goes to another, no participant's words change but by an edit of a task, and the log only grows.
-/
import ConsensFlow.Plan
import ConsensFlow.Pastes

namespace ConsensFlow

open Lib Txn

/-! ## 1. The tables fit together -/

/-- What one row names is there, and of the same project. -/
structure Ledger.Fits (s : Ledger) : Prop where
  numbers : ∀ t ∈ s.tasks.rows, ∀ t' ∈ s.tasks.rows, t.project = t'.project →
    t.number = t'.number → t = t'
  counted : ∀ t ∈ s.tasks.rows, t.number ≠ 0
  projects : ∀ t ∈ s.tasks.rows, ∃ p ∈ s.projects.rows, p.id = t.project
  chiefs : ∀ p ∈ s.projects.rows, ∃ q ∈ s.participants.rows, q.project = p.id ∧ q.role = .chief ∧
    q.leftAt = none
  windows : ∀ t ∈ s.tasks.rows, ∀ w, t.assignee = some w →
    ∃ q ∈ s.participants.rows, q.id = w ∧ q.project = t.project
  here : ∀ t ∈ s.tasks.rows, t.state = .opened → ∀ q ∈ s.participants.rows,
    t.assignee = some q.id → q.leftAt = none
  taken : ∀ t ∈ s.tasks.rows, t.state.held = true → t.assignee.isSome = true
  deleted : ∀ t ∈ s.tasks.rows, t.deletedAt.isSome = true → t.state.finished = true
  needs : ∀ e ∈ s.needs, ∃ t ∈ s.tasks.rows, ∃ n ∈ s.tasks.rows,
    t.id = e.1 ∧ n.id = e.2 ∧ t.project = n.project
  members : ∀ q ∈ s.participants.rows, ∀ m, q.memberId = some m →
    q.role ∈ Role.memberRoles ∧ ∃ member ∈ s.participants.rows, member.id = m ∧
      member.project = q.project
  briefs : ∀ m ∈ s.messages.rows, m.kind = .task → ∀ t, m.task = some t →
    (∃ row ∈ s.tasks.rows, row.id = t) ∧ ∃ q ∈ s.participants.rows, q.id = m.recipient

/-- A wired board is that of tables that fit. -/
theorem Wired.fits {s : Ledger} (hw : Wired s.board) : s.Fits where
  numbers t ht t' ht' hp hn :=
    Table.eq_of_key ht ht' (hw.numbers _ (card_mem ht) _ (card_mem ht') hp hn)
  counted t ht := hw.counted _ (card_mem ht)
  projects t ht := hw.projects _ (card_mem ht)
  chiefs p hp := by
    obtain ⟨q, hq, e, hr, hl⟩ := hw.chiefs p hp
    exact ⟨q, hq, e, hr, Option.isNone_iff_eq_none.mp hl⟩
  windows t ht w ha := hw.windows _ (card_mem ht) w ha
  here t ht ho q hq ha := by
    have k := hw.here _ (card_mem ht) (phase_opened_iff.mpr ho) q.id ha
    rw [left_iff hq] at k
    exact Option.not_isSome_iff_eq_none.mp k
  taken t ht hh := hw.taken _ (card_mem ht) (.inl (phase_held_iff.mpr hh))
  deleted t ht hd := phase_finished_iff.mp (hw.deleted _ (card_mem ht) hd)
  needs e he := by
    obtain ⟨x, hx, y, hy, ex, ey, ep⟩ := hw.edges e he
    obtain ⟨t, ht, rfl⟩ := mem_cards.mp hx
    obtain ⟨n, hn, rfl⟩ := mem_cards.mp hy
    exact ⟨t, ht, n, hn, ex, ey, ep⟩
  members q hq m hm := by
    obtain ⟨member, there, e, ep⟩ := hw.members q hq m hm
    exact ⟨hw.sessions q hq (by rw [hm]; rfl), member, there, e, ep⟩
  briefs m hm hk t ht := by
    have brief : m.brief = some (t, m.recipient) := by
      rw [Message.brief, if_pos hk, ht]
      rfl
    obtain ⟨⟨c, hc, e⟩, q, hq, eq⟩ := hw.briefs _ (List.mem_filterMap.mpr ⟨m, hm, brief⟩)
    obtain ⟨row, hr, rfl⟩ := mem_cards.mp hc
    exact ⟨⟨row, hr, e⟩, q, hq, eq⟩

/-- **After any calls, granted or refused, the tables fit together.** -/
theorem tables_fit (calls : List Call) : (Ledger.empty.after calls).Fits :=
  (reachable_after calls).sound.wired.fits

/-! ## 2. What is over stays over -/

/-- What no edit takes from a card: where it is, who asked for it, and that it is over. -/
structure Card.Lasts (c c' : Card) : Prop where
  project : c'.project = c.project
  number : c'.number = c.number
  requester : c'.requester = c.requester
  accepted : c.phase = .accepted → c'.phase = .accepted ∧ c'.assignee = c.assignee
  cancelled : c.phase = .cancelled → c'.phase = .cancelled ∧ c'.assignee = c.assignee
  deleted : c.deleted = true → c'.deleted = true

theorem Card.Lasts.refl (c : Card) : c.Lasts c :=
  ⟨rfl, rfl, rfl, fun h => ⟨h, rfl⟩, fun h => ⟨h, rfl⟩, fun h => h⟩

theorem Card.Lasts.trans {a b c : Card} (h : a.Lasts b) (k : b.Lasts c) : a.Lasts c := by
  refine ⟨k.project.trans h.project, k.number.trans h.number, k.requester.trans h.requester,
    fun ended => ?_, fun ended => ?_, fun off => k.deleted (h.deleted off)⟩
  · obtain ⟨ended, same⟩ := h.accepted ended
    obtain ⟨ended, same'⟩ := k.accepted ended
    exact ⟨ended, same'.trans same⟩
  · obtain ⟨ended, same⟩ := h.cancelled ended
    obtain ⟨ended, same'⟩ := k.cancelled ended
    exact ⟨ended, same'.trans same⟩

/-- The cards of a board last in another. -/
def Board.Lasts (b b' : Board) : Prop := ∀ x ∈ b.cards, ∃ y ∈ b'.cards, y.id = x.id ∧ x.Lasts y

section Board

variable {L : Licence} {b b' b1 b2 : Board} {d d' : Debt} {c c' : Card}

theorem Board.Lasts.refl (b : Board) : b.Lasts b := fun x hx => ⟨x, hx, rfl, .refl x⟩

theorem Board.Lasts.trans (h : b.Lasts b1) (k : b1.Lasts b2) : b.Lasts b2 := by
  intro x hx
  obtain ⟨y, hy, ey, ly⟩ := h x hx
  obtain ⟨z, hz, ez, lz⟩ := k y hy
  exact ⟨z, hz, ez.trans ey, ly.trans lz⟩

/-- A card that is neither accepted nor cancelled may move. -/
theorem Card.lasts_of_open (accepted : c.phase ≠ .accepted) (cancelled : c.phase ≠ .cancelled)
    (project : c'.project = c.project) (number : c'.number = c.number)
    (requester : c'.requester = c.requester) (deleted : c.deleted = true → c'.deleted = true) :
    c.Lasts c' :=
  ⟨project, number, requester, fun h => absurd h accepted, fun h => absurd h cancelled, deleted⟩

/-- **What is over is not moved.** -/
theorem Shift.lasts (h : Shift L b d c d' c') : c.Lasts c' := by
  cases h with
  | enter door w ho hl hu hr =>
    have open_ : c.phase ≠ .accepted ∧ c.phase ≠ .cancelled := by
      constructor <;> intro e <;> cases door <;> simp [Door.Opens, e] at ho
    exact Card.lasts_of_open open_.1 open_.2 rfl rfl rfl id
  | paused u p n hc hu hp hm =>
    refine Card.lasts_of_open (fun e => ?_) (fun e => ?_) rfl rfl rfl id <;>
      simp [Phase.waits, e] at hc
  | finished hc hd hm hu =>
    refine Card.lasts_of_open (fun e => ?_) (fun e => ?_) rfl rfl rfl id <;>
      simp [Phase.inHand, e] at hc
  | accepted hc hu =>
    refine Card.lasts_of_open (fun e => ?_) (fun e => ?_) rfl rfl rfl id <;> simp [e] at hc
  | failed hc hu =>
    refine Card.lasts_of_open (fun e => ?_) (fun e => ?_) rfl rfl rfl id <;> simp [e] at hc
  | cancelled hc hu => exact ⟨rfl, rfl, rfl, fun e => absurd e hc, fun _ => ⟨rfl, rfl⟩, id⟩
  | shelved hc =>
    refine Card.lasts_of_open (fun e => ?_) (fun e => ?_) rfl rfl rfl id <;>
      simp [Phase.inHand, e] at hc
  | unpaused hc hw hu =>
    obtain ⟨u, p, hp⟩ := hc
    refine Card.lasts_of_open (fun e => ?_) (fun e => ?_) rfl rfl rfl id <;> rw [hp] at e <;>
      cases e
  | deleted hc hn hu => exact ⟨rfl, rfl, rfl, fun e => ⟨e, rfl⟩, fun e => ⟨e, rfl⟩, fun _ => rfl⟩

theorem Board.Lasts.put (hw : Wired b) (hc : c ∈ b.cards) (e : c'.id = c.id) (h : c.Lasts c') :
    b.Lasts (b.put c') := by
  intro x hx
  by_cases own : x.id = c.id
  · obtain rfl := hw.unique hx hc own
    exact ⟨c', (Board.mem_put hc e).mpr (.inl rfl), e, h⟩
  · exact ⟨x, (Board.mem_put hc e).mpr (.inr ⟨hx, own⟩), rfl, .refl x⟩

theorem Edit.lasts (h : Edit L d b d' b') (hw : Wired b) : b.Lasts b' := by
  cases h with
  | staff h => exact fun x hx => ⟨x, h.cards ▸ hx, rfl, .refl x⟩
  | shift hc h hs => exact Board.Lasts.put hw hc h.shifted.id h.lasts
  | stop hc h hs => exact Board.Lasts.put hw hc h.shifted.id h.lasts
  | create c ns h hu => exact fun x hx => ⟨x, Board.mem_add.mpr (.inl hx), rfl, .refl x⟩
  | dismiss ws hu =>
    intro x hx
    refine ⟨_, List.mem_map_of_mem hx, ?_⟩
    split
    · next leaves =>
      have open_ : x.phase ≠ .accepted ∧ x.phase ≠ .cancelled := by
        constructor <;> intro e <;> simp [Board.leaves, e] at leaves
      exact ⟨rfl, Card.lasts_of_open open_.1 open_.2 rfl rfl rfl id⟩
    · exact ⟨rfl, .refl x⟩
  | _ => exact Board.Lasts.refl b

theorem Edits.lasts (h : Edits L d b d' b') (hw : Wired b) : b.Lasts b' :=
  (h.keep (P := fun _ b1 => b.Lasts b1) (fun e hw1 k => k.trans (e.lasts hw1)) hw
    (Board.Lasts.refl b)).2

end Board

/-- A call that removes a project. -/
def Call.Removes (c : Call) (project : Nat) : Prop := c.op = .deleteProject project

/-- What stands of a task: where it is, who asked for it, and that it is over. -/
structure Task.Lasts (t t' : Task) : Prop where
  id : t'.id = t.id
  project : t'.project = t.project
  number : t'.number = t.number
  requester : t'.requester = t.requester
  accepted : t.state = .accepted → t'.state = .accepted ∧ t'.assignee = t.assignee
  cancelled : t.state = .cancelled → t'.state = .cancelled ∧ t'.assignee = t.assignee
  deleted : t.deletedAt.isSome = true → t'.deletedAt.isSome = true ∧ t'.state.finished = true

section Tasks

variable {s : Ledger}

theorem Call.lasts (hs : Sound s.board) {c : Call} {project : Nat} (stays : ¬ c.Removes project) :
    ∀ x ∈ s.board.cards, x.project = project →
      ∃ y ∈ (c.step s).board.cards, y.id = x.id ∧ x.Lasts y := by
  intro x hx hp
  unfold Call.step
  split
  · next s' h =>
    rcases Op.edited (L := .any) Licence.fair_any h hs.wired hs.acyclic (c.op.granted_any _) with
      ⟨d, -, edits⟩ | ⟨removed, is_, k⟩
    · exact edits.lasts hs.wired x hx
    · have other : x.project ≠ removed := fun e => stays (is_.trans (by rw [← e, hp]))
      exact ⟨x, k.mem_cards.mpr ⟨hx, other⟩, rfl, .refl x⟩
  · exact ⟨x, hx, rfl, .refl x⟩

/-- **What is over stays over**: after any calls, then any more that do not remove its project, each
    task is there under its number, and what was accepted, cancelled or deleted is so, in the window
    it was in. -/
theorem over_stays_over (before after : List Call) :
    ∀ t ∈ (Ledger.empty.after before).tasks.rows, (∀ c ∈ after, ¬ c.Removes t.project) →
      ∃ t' ∈ (Ledger.empty.after (before ++ after)).tasks.rows, t.Lasts t' := by
  intro t ht stays
  have lasts : ∃ y ∈ (Ledger.empty.after (before ++ after)).board.cards,
      y.id = t.card.id ∧ t.card.Lasts y := by
    induction after using List.reverseRecOn with
    | nil => exact ⟨t.card, by rw [List.append_nil]; exact card_mem ht, rfl, .refl _⟩
    | append_singleton after c ih =>
      obtain ⟨y, hy, ey, ly⟩ := ih fun k hk => stays k (List.mem_append_left _ hk)
      have last : Ledger.empty.after (before ++ (after ++ [c])) =
          c.step (Ledger.empty.after (before ++ after)) := by
        rw [← List.append_assoc]
        exact List.foldl_append
      obtain ⟨z, hz, ez, lz⟩ := Call.lasts (reachable_after (before ++ after)).sound
        (stays c (List.mem_append_right _ List.mem_cons_self)) y hy ly.project
      rw [last]
      exact ⟨z, hz, ez.trans ey, ly.trans lz⟩
  obtain ⟨y, hy, ey, ly⟩ := lasts
  obtain ⟨t', ht', rfl⟩ := mem_cards.mp hy
  have fits := tables_fit (before ++ after)
  refine ⟨t', ht', ey, ly.project, ly.number, ly.requester, fun h => ?_, fun h => ?_, fun h => ?_⟩
  · obtain ⟨ended, same⟩ := ly.accepted (phase_accepted_iff.mpr h)
    exact ⟨phase_accepted_iff.mp ended, same⟩
  · obtain ⟨ended, same⟩ := ly.cancelled (phase_cancelled_iff.mpr h)
    exact ⟨phase_cancelled_iff.mp ended, same⟩
  · exact ⟨ly.deleted h, fits.deleted t' ht' (ly.deleted h)⟩

end Tasks

/-- T-1 is called off. -/
def offAtOnce : List Call := [opening, taskFor "first" [], cancelled 1]

/-- Then it is resumed and assigned. -/
def triedAgain : List Call := [resumed 1, assigned 1]

theorem over_stays_over_triedAgain :
    ∃ t ∈ (Ledger.empty.after (offAtOnce ++ triedAgain)).tasks.rows,
      t.number = 1 ∧ t.state = .cancelled := by
  have off : ∃ t ∈ (Ledger.empty.after offAtOnce).tasks.rows,
      t.number = 1 ∧ t.state = .cancelled := by
    decide
  obtain ⟨t, ht, number, state⟩ := off
  obtain ⟨t', ht', lasts⟩ := over_stays_over offAtOnce triedAgain t ht fun c hc e => by
    simp only [triedAgain, List.mem_cons, List.not_mem_nil, or_false] at hc
    rcases hc with rfl | rfl <;> cases e
  exact ⟨t', ht', lasts.number.trans number, (lasts.cancelled state).1⟩

/-! ## 3. The mail stands -/

/-- A call that edits a task, and may say its brief anew. -/
def Call.Edits (c : Call) : Prop :=
  ∃ project number author edit, c.op = .editTask project number author edit

/-- What stands of a message: its stamp, and the words a participant wrote. -/
structure Message.Lasts (m m' : Message) : Prop where
  id : m'.id = m.id
  stamp : m'.stamp = m.stamp

section Mail

variable {s : Ledger}

/-- What a call leaves of the mail and the log. -/
theorem Call.mail {c : Call} (stays : ∀ project, ¬ c.Removes project) :
    s.events.rows <+: (c.step s).events.rows ∧ ∀ m ∈ s.messages.rows,
      ∃ m' ∈ (c.step s).messages.rows, m.Lasts m' ∧
        (m.sender.isSome = true → ¬ c.Edits → m'.body = m.body) := by
  unfold Call.step
  split
  · next s' h =>
    rcases Op.kept h with k | ⟨removed, is_, -⟩
    · refine ⟨k.log, fun m hm => ?_⟩
      obtain ⟨m', hm', e, f⟩ := k.later hm
      refine ⟨m', hm', ⟨e, f.stamp⟩, fun hs edits => f.words hs ?_⟩
      cases op : c.op with
      | editTask p n b edit => exact absurd ⟨p, n, b, edit, op⟩ edits
      | _ => exact id
    · exact absurd is_ (stays removed)
  · exact ⟨List.prefix_refl _, fun m hm => ⟨m, hm, ⟨rfl, rfl⟩, fun _ _ => rfl⟩⟩

/-- **The mail stands**: after any calls, then any more that remove no project, each message is
    there, to and from whom it was, the words a participant wrote are as they were unless a task was
    edited, and the log goes on from where it was. -/
theorem mail_stands (before after : List Call)
    (stays : ∀ c ∈ after, ∀ project, ¬ c.Removes project) :
    (Ledger.empty.after before).events.rows <+: (Ledger.empty.after (before ++ after)).events.rows ∧
    ∀ m ∈ (Ledger.empty.after before).messages.rows,
      ∃ m' ∈ (Ledger.empty.after (before ++ after)).messages.rows, m.Lasts m' ∧
        (m.sender.isSome = true → (∀ c ∈ after, ¬ c.Edits) → m'.body = m.body) := by
  induction after using List.reverseRecOn with
  | nil =>
    rw [List.append_nil]
    exact ⟨List.prefix_refl _, fun m hm => ⟨m, hm, ⟨rfl, rfl⟩, fun _ _ => rfl⟩⟩
  | append_singleton after c ih =>
    have last : Ledger.empty.after (before ++ (after ++ [c])) =
        c.step (Ledger.empty.after (before ++ after)) := by
      rw [← List.append_assoc]
      exact List.foldl_append
    obtain ⟨log, mail⟩ := ih fun k hk => stays k (List.mem_append_left _ hk)
    obtain ⟨log', mail'⟩ := Call.mail (s := Ledger.empty.after (before ++ after))
      (stays c (List.mem_append_right _ List.mem_cons_self))
    rw [last]
    refine ⟨log.trans log', fun m hm => ?_⟩
    obtain ⟨m1, hm1, l1, w1⟩ := mail m hm
    obtain ⟨m2, hm2, l2, w2⟩ := mail' m1 hm1
    refine ⟨m2, hm2, ⟨l2.id.trans l1.id, l2.stamp.trans l1.stamp⟩, fun sent none_ => ?_⟩
    have sent1 : m1.sender.isSome = true := by
      have same : m1.sender = m.sender := congrArg Stamp.sender l1.stamp
      rw [same]
      exact sent
    exact (w2 sent1 (none_ c (List.mem_append_right _ List.mem_cons_self))).trans
      (w1 sent fun k hk => none_ k (List.mem_append_left _ hk))

end Mail

/-- The brief of T-1 waits for its window. -/
def briefQueued : List Call := [opening, taskFor "first" [], assigned 1]

/-- It is pasted, its window answers, and T-1 is called off. -/
def pastedThen : List Call := pasted 1 ++ [recorded 1 "done", cancelled 1]

set_option maxRecDepth 4096 in
theorem mail_stands_pastedThen :
    (Ledger.empty.after briefQueued).events.rows <+:
      (Ledger.empty.after (briefQueued ++ pastedThen)).events.rows ∧
    ∃ m ∈ (Ledger.empty.after briefQueued).messages.rows,
      ∃ m' ∈ (Ledger.empty.after (briefQueued ++ pastedThen)).messages.rows,
        m.Lasts m' ∧ m.sender.isSome = true ∧ m.state = .queued ∧ m'.state = .delivered ∧
          m'.body = m.body := by
  obtain ⟨log, mail⟩ := mail_stands briefQueued pastedThen fun c hc project e => by
    simp only [pastedThen, pasted, List.cons_append, List.nil_append, List.mem_cons,
      List.not_mem_nil, or_false] at hc
    rcases hc with rfl | rfl | rfl | rfl <;> cases e
  have brief : ∃ m ∈ (Ledger.empty.after briefQueued).messages.rows,
      m.id = 1 ∧ m.sender.isSome = true ∧ m.state = .queued := by decide
  have delivered : ∀ m' ∈ (Ledger.empty.after (briefQueued ++ pastedThen)).messages.rows,
      m'.id = 1 → m'.state = .delivered := by decide
  obtain ⟨m, hm, own, sent, queued⟩ := brief
  obtain ⟨m', hm', lasts, words⟩ := mail m hm
  refine ⟨log, m, hm, m', hm', lasts, sent, queued, delivered m' hm' (lasts.id.trans own), ?_⟩
  refine words sent fun c hc edits => ?_
  simp only [pastedThen, pasted, List.cons_append, List.nil_append, List.mem_cons,
    List.not_mem_nil, or_false] at hc
  obtain ⟨project, number, author, edit, e⟩ := edits
  rcases hc with rfl | rfl | rfl | rfl <;> cases e

end ConsensFlow
