/-
  File:      ConsensFlow/Edits/Members.lean
  Subject:   THE EDITS OF WHO IS ON THE STAFF: a member joins, is changed in place, is out and
             back, and leaves.

  * `addParticipant_edits`, `addMember_edits`, `setRoles_edits`, `editMember_edits`, … -- each a
    write of participants, and the plan stays as it is;
  * `cancelEach_board` -- the tasks that leave with a member, all together, are one `dismiss`;
  * **`removeMember_edits`** -- and nothing waits untold for what went.
-/
import ConsensFlow.Edits.Delivering

namespace ConsensFlow

open Lib Txn

/-! ## 1. Joining, and changed in place -/

section Staff

variable {L : Licence} {s s' : Ledger} {u : Unit} {d : Debt}

theorem Role.not_chief {r : Role} (h : r ∈ Role.memberRoles) : r ≠ .chief := by
  rintro rfl
  revert h
  decide

theorem doWhen_board {c : Bool} {m : DeskM Unit}
    (h : (doWhen c (liftM m) : LedgerM Unit).run s = .ok (u, s')) : s'.board = s.board := by
  rcases run_doWhen_ok.mp h with ⟨-, h⟩ | ⟨-, rfl⟩
  · exact board_of_lift h
  · rfl

/-- A participant that joins is new, in the project asked. -/
theorem addParticipant_ok {project : Nat} {n : NewParticipant} {p : Participant}
    (h : (addParticipant project n).run s = .ok (p, s')) :
    ∃ q : Participant, q.project = project ∧ q.role = n.role ∧ q.memberId = none ∧
      q.leftAt = none ∧ (∃ r ∈ s.projects.rows, r.id = project) ∧
      s'.board = ({ s with participants := s.participants.insert q } : Ledger).board := by
  obtain ⟨r, s1, h1, h⟩ := run_bind_ok.mp h
  obtain ⟨rfl, hr, er⟩ := projectRow_ok h1
  obtain ⟨s0, s2, h2, h⟩ := run_bind_ok.mp h
  obtain ⟨rfl, rfl⟩ := run_state_ok.mp h2
  obtain ⟨u3, s3, h3, h⟩ := run_bind_ok.mp h
  obtain ⟨-, rfl⟩ := run_require_ok.mp h3
  obtain ⟨t, s4, h4, h⟩ := run_bind_ok.mp h
  obtain rfl := now_ok h4
  obtain ⟨id, s5, h5, h⟩ := run_bind_ok.mp h
  obtain ⟨-, rfl⟩ := insertParticipant_ok h5
  obtain ⟨u6, s6, h6, h⟩ := run_bind_ok.mp h
  have b6 := doWhen_board h6
  obtain ⟨rfl, -⟩ := participantRow_ok h
  exact ⟨_, rfl, rfl, rfl, rfl, ⟨r, hr, er⟩, b6⟩

theorem addParticipant_edits {project : Nat} {n : NewParticipant} {p : Participant}
    (h : (addParticipant project n).run s = .ok (p, s')) : Edits L d s.board d s'.board := by
  obtain ⟨q, -, -, hm, -, -, hb⟩ := addParticipant_ok h
  rw [hb]
  refine .staff (Restaffed.insert s q fun m k => ?_)
  rw [hm] at k
  cases k

theorem requireRoles_ok {R : Ledger → Ledger → Prop} [Frame R] {roles r : List Role}
    (h : (requireRoles roles : LedgerTxn R (List Role)).run s = .ok (r, s')) : s = s' := by
  obtain ⟨u1, s1, h1, h⟩ := run_bind_ok.mp h
  obtain ⟨-, rfl⟩ := run_require_ok.mp h1
  exact (run_pure_ok.mp h).2

/-- **One joins**, or comes back as itself. -/
theorem addMember_edits {project : Nat} {m : NewMember} {handle : String} {p : Participant}
    (h : (addMember project m handle).run s = .ok (p, s')) : s.Edited L s' := by
  obtain ⟨roles, s1, h1, h⟩ := run_bind_ok.mp h
  obtain rfl := requireRoles_ok h1
  obtain ⟨u2, s2, h2, h⟩ := run_bind_ok.mp h
  obtain ⟨-, rfl⟩ := run_require_ok.mp h2
  rw [run_inWrite] at h
  obtain ⟨s0, s3, h3, h⟩ := run_bind_ok.mp h
  obtain ⟨rfl, rfl⟩ := run_state_ok.mp h3
  split at h
  · exact ⟨.none, Debt.paid_none, addParticipant_edits h⟩
  · next left hl =>
    obtain ⟨u4, s4, h4, h⟩ := run_bind_ok.mp h
    obtain rfl := updateParticipants_ok h4
    obtain ⟨u5, s5, h5, h⟩ := run_bind_ok.mp h
    have b5 := board_of_lift h5
    obtain ⟨rfl, -⟩ := participantRow_ok h
    have hm := List.mem_of_getLast? hl
    simp only [List.mem_filter, Bool.and_eq_true, bne_iff_ne, ne_eq] at hm
    have hmem : left.memberId = none := Option.isNone_iff_eq_none.mp hm.2.1.1.1.1.1.1.2
    refine ⟨.none, Debt.paid_none, ?_⟩
    rw [b5]
    refine .staff (Restaffed.alter s _ _ fun q hq hk => ?_)
    simp only [Bool.and_eq_true, beq_iff_eq] at hk
    have eq : q = left := Table.eq_of_key hq hm.1 hk.1
    subst eq
    refine ⟨rfl, rfl, fun k => ?_, fun k => absurd k hm.2.1.1.1.1.2, fun k => by cases k⟩
    rw [hmem] at k
    cases k

/-- A member of the staff: no session, and neither the chief nor the human. -/
theorem staffMember_ok {R : Ledger → Ledger → Prop} [Frame R] {project : Nat}
    {handle does : String} {p : Participant}
    (h : (staffMember project handle does : LedgerTxn R Participant).run s = .ok (p, s')) :
    s = s' ∧ p ∈ s.participants.rows ∧ p.memberId = none ∧ p.role ∈ Role.memberRoles ∧
      p.project = project := by
  obtain ⟨q, s1, h1, h⟩ := run_bind_ok.mp h
  obtain ⟨rfl, hq⟩ := participantByHandle_ok h1
  obtain ⟨r, s2, h2, h⟩ := run_bind_ok.mp h
  obtain ⟨r', s3, h3, h2⟩ := run_bind_ok.mp h2
  obtain ⟨rfl, hr, er⟩ := participantRow_ok h3
  simp only [run_bind_ok, run_state_ok, run_require_ok, run_pure_ok] at h2
  obtain ⟨s0, s4, ⟨rfl, rfl⟩, u4, s5, ⟨hn, rfl⟩, rfl, rfl⟩ := h2
  obtain ⟨u6, s6, h6, h⟩ := run_bind_ok.mp h
  obtain ⟨hc, rfl⟩ := run_require_ok.mp h6
  obtain ⟨rfl, rfl⟩ := run_pure_ok.mp h
  have eq : r' = q := Table.eq_of_key hr hq.mem er
  subst eq
  exact ⟨rfl, hr, Option.isNone_iff_eq_none.mp hn, List.contains_iff_mem.mp hc, hq.project⟩

/-- **Its roles change.** -/
theorem setRoles_edits {project : Nat} {handle : String} {roles : List Role} {p : Participant}
    (h : (setRoles project handle roles).run s = .ok (p, s')) : s.Edited L s' := by
  obtain ⟨r, s1, h1, h⟩ := run_bind_ok.mp h
  obtain rfl := requireRoles_ok h1
  obtain ⟨m, s2, h2, h⟩ := run_bind_ok.mp h
  obtain ⟨rfl, hm, hn, hr, -⟩ := staffMember_ok h2
  obtain ⟨u3, s3, h3, h⟩ := run_bind_ok.mp h
  obtain ⟨-, rfl⟩ := run_require_ok.mp h3
  obtain ⟨u4, s4, h4, h⟩ := run_bind_ok.mp h
  obtain rfl := updateParticipants_ok h4
  obtain ⟨u5, s5, h5, h⟩ := run_bind_ok.mp h
  have b5 := board_of_lift h5
  obtain ⟨rfl, -⟩ := participantRow_ok h
  refine ⟨.none, Debt.paid_none, ?_⟩
  rw [b5]
  refine .staff (Restaffed.alter s _ _ fun q hq hk => ?_)
  simp only [Bool.and_eq_true, beq_iff_eq] at hk
  have eq : q = m := Table.eq_of_key hq hm hk.1
  subst eq
  refine ⟨rfl, rfl, fun k => ?_, fun k => absurd k (Role.not_chief hr), Or.inl⟩
  rw [hn] at k
  cases k

/-- A statement that leaves of each participant what the board asks is one edit. -/
theorem updateParticipants_edits {p : Participant → Bool} {f : Participant → Participant}
    {hr : ∀ q, p q = true → q.role = .human → (f q).role = .human}
    (h : (updateParticipants p f hr).run s = .ok (u, s'))
    (hf : ∀ q, (f q).project = q.project ∧ (f q).memberId = q.memberId ∧ (f q).role = q.role ∧
      (f q).leftAt = q.leftAt) : Edits L d s.board d s'.board := by
  obtain rfl := updateParticipants_ok h
  refine .staff (Restaffed.alter s _ _ fun q _ _ => ?_)
  obtain ⟨h1, h2, h3, h4⟩ := hf q
  exact ⟨h1, h2, fun _ => h3, fun k => h3.trans k, fun k => Or.inl (h4 ▸ k)⟩

theorem renameMember_edits {project : Nat} {m : Participant} {new : String}
    (h : (renameMember project m new).run s = .ok (u, s')) : Edits L d s.board d s'.board := by
  obtain ⟨u1, s1, h1, h⟩ := run_bind_ok.mp h
  have e1 : Edits L d s.board d s1.board := updateParticipants_edits h1 fun _ => ⟨rfl, rfl, rfl, rfl⟩
  obtain ⟨s0, s2, h2, h⟩ := run_bind_ok.mp h
  obtain ⟨rfl, rfl⟩ := run_state_ok.mp h2
  refine e1.trans ?_
  refine run_forM_ok (P := fun a b : Ledger => Edits L d a.board d b.board) (fun _ => .refl _ _)
    (fun {a b c} (h : Edits L d a.board d b.board) k => h.trans k) (fun w _ a b hk => ?_) h
  obtain ⟨s0, s2, h2, hk⟩ := run_bind_ok.mp hk
  obtain ⟨rfl, rfl⟩ := run_state_ok.mp h2
  exact updateParticipants_edits hk fun _ => ⟨rfl, rfl, rfl, rfl⟩

/-- **A member edited**, its windows with it. -/
theorem editMember_edits {project : Nat} {handle renamed : String} {edit : MemberEdit}
    {p : Participant} (h : (editMember project handle edit renamed).run s = .ok (p, s')) :
    s.Edited L s' := by
  obtain ⟨m, s1, h1, h⟩ := run_bind_ok.mp h
  obtain ⟨rfl, -⟩ := staffMember_ok h1
  obtain ⟨u2, s2, h2, h⟩ := run_bind_ok.mp h
  have e2 : Edits L .none s.board .none s2.board :=
    updateParticipants_edits h2 fun _ => ⟨rfl, rfl, rfl, rfl⟩
  obtain ⟨u3, s3, h3, h⟩ := run_bind_ok.mp h
  have b3 : s3.board = s2.board := board_of_lift h3
  obtain ⟨u4, s4, h4, h⟩ := run_bind_ok.mp h
  obtain ⟨rfl, -⟩ := participantRow_ok h
  refine ⟨.none, Debt.paid_none, ?_⟩
  have e3 := e2.desk b3
  rcases run_doWhen_ok.mp h4 with ⟨-, h4⟩ | ⟨-, rfl⟩
  · obtain ⟨u5, s5, h5, h6⟩ := run_bind_ok.mp h4
    exact (e3.trans (renameMember_edits h5)).desk (board_of_lift h6)
  · exact e3

/-- **The human deletes a session** that has nothing in hand and nothing waiting. -/
theorem endSession_edits {project : Nat} {handle by_ : String} {p : Project}
    (h : (endSession project handle by_).run s = .ok (p, s')) (hw : Wired s.board) :
    s.Edited L s' := by
  obtain ⟨b, s1, h1, h⟩ := run_bind_ok.mp h
  obtain ⟨rfl, -⟩ := participantByHandle_ok h1
  obtain ⟨session, s2, h2, h⟩ := run_bind_ok.mp h
  obtain ⟨rfl, hs⟩ := participantByHandle_ok h2
  obtain ⟨u3, s3, h3, h⟩ := run_bind_ok.mp h
  obtain ⟨hm, rfl⟩ := run_require_ok.mp h3
  obtain ⟨s0, s4, h4, h⟩ := run_bind_ok.mp h
  obtain ⟨rfl, rfl⟩ := run_state_ok.mp h4
  obtain ⟨u5, s5, h5, h⟩ := run_bind_ok.mp h
  obtain ⟨-, rfl⟩ := run_require_ok.mp h5
  obtain ⟨u6, s6, h6, h⟩ := run_bind_ok.mp h
  obtain ⟨hwait, rfl⟩ := run_require_ok.mp h6
  obtain ⟨u7, s7, h7, h⟩ := run_bind_ok.mp h
  obtain ⟨rfl, -⟩ := projectRow_ok h
  have hr : session.role ≠ .chief := Role.not_chief (hw.sessions _ hs.mem hm)
  have hr : ∀ q ∈ s.participants.rows, q.id = session.id → q.role ≠ .chief := by
    intro q hq e
    rw [Table.eq_of_key hq hs.mem e]
    exact hr
  refine ⟨.none, Debt.paid_none, (closeSession_edits h7 hr fun c hc ho ha => ?_).1⟩
  obtain ⟨t, ht, rfl⟩ := mem_cards.mp hc
  have hin : t.number ∈ s.waitingFor session.id := by
    refine List.mem_map.mpr ⟨t, List.mem_filter.mpr ⟨ht, ?_⟩, rfl⟩
    rw [show t.assignee = some session.id from ha, phase_opened_iff.mp ho]
    simp
  rw [List.isEmpty_iff.mp hwait] at hin
  cases hin

/-- **A member is out of quota.** -/
theorem markOut_edits {participant : Nat} {until_ reason : String} {p : Participant}
    (h : (markOut participant until_ reason).run s = .ok (p, s')) : s.Edited L s' := by
  obtain ⟨r, s1, h1, h⟩ := run_bind_ok.mp h
  obtain ⟨-, rfl⟩ := run_found_ok.mp h1
  obtain ⟨k, s2, h2, h⟩ := run_bind_ok.mp h
  obtain ⟨-, rfl⟩ := run_found_ok.mp h2
  obtain ⟨u3, s3, h3, h⟩ := run_bind_ok.mp h
  obtain rfl := requireText_ok h3
  obtain ⟨m, s4, h4, h⟩ := run_bind_ok.mp h
  obtain ⟨rfl, -⟩ := participantRow_ok h4
  obtain ⟨t, s5, h5, h⟩ := run_bind_ok.mp h
  have b5 : s5.board = s.board := board_of_lift h5
  simp only at h
  split at h
  · obtain ⟨-, rfl⟩ := run_pure_ok.mp h
    exact .of_board b5
  · obtain ⟨u6, s6, h6, h⟩ := run_bind_ok.mp h
    have e6 : Edits L .none s5.board .none s6.board :=
      updateParticipants_edits h6 fun _ => ⟨rfl, rfl, rfl, rfl⟩
    rw [b5] at e6
    obtain ⟨u7, s7, h7, h⟩ := run_bind_ok.mp h
    obtain ⟨rfl, -⟩ := participantRow_ok h
    exact ⟨.none, Debt.paid_none, e6.desk (board_of_lift h7)⟩

/-- What a return before the reset does. -/
theorem cameBack_edits {m p : Participant} {t : Time}
    (h : (cameBack m t).run s = .ok (p, s')) : Edits L d s.board d s'.board := by
  obtain ⟨u4, s4, h4, h⟩ := run_bind_ok.mp h
  have e4 : Edits L d s.board d s4.board :=
    updateParticipants_edits h4 fun _ => ⟨rfl, rfl, rfl, rfl⟩
  obtain ⟨s0, s5, h5, h⟩ := run_bind_ok.mp h
  obtain ⟨rfl, rfl⟩ := run_state_ok.mp h5
  obtain ⟨u6, s6, h6, h⟩ := run_bind_ok.mp h
  have b6 : s6.board = s4.board := board_of_lift h6
  obtain ⟨u7, s7, h7, h⟩ := run_bind_ok.mp h
  have b7 : s7.board = s6.board := board_of_lift h7
  obtain ⟨rfl, -⟩ := participantRow_ok h
  exact e4.desk (b7.trans b6)

/-- **And back.** -/
theorem markBack_edits {participant : Nat} {because : String} {p : Participant}
    (h : (markBack participant because).run s = .ok (p, s')) : s.Edited L s' := by
  obtain ⟨u1, s1, h1, h⟩ := run_bind_ok.mp h
  obtain rfl := requireText_ok h1
  obtain ⟨m, s2, h2, h⟩ := run_bind_ok.mp h
  obtain ⟨rfl, -⟩ := participantRow_ok h2
  obtain ⟨t, s3, h3, h⟩ := run_bind_ok.mp h
  have b3 : s3.board = s.board := board_of_lift h3
  split at h
  · obtain ⟨-, rfl⟩ := run_pure_ok.mp h
    exact .of_board b3
  · have e := cameBack_edits (L := L) (d := .none) h
    rw [b3] at e
    exact ⟨.none, Debt.paid_none, e⟩

end Staff

/-! ## 2. Leaving -/

section Leaving

variable {L : Licence} {s s' : Ledger} {u : Unit} {d : Debt}

/-- The tasks that leave, cancelled one after the other, are cancelled together. -/
theorem cancelEach_board {reason : String} {ts : List Task}
    (h : (ts.forM (cancelLeaving reason)).run s = .ok (u, s')) :
    s'.board = { s.board with cards := s.board.cards.map fun c =>
      if ∃ t ∈ ts, t.id = c.id then { c with phase := .cancelled } else c } := by
  induction ts generalizing s with
  | nil =>
    obtain ⟨-, rfl⟩ := run_pure_ok.mp h
    simp
  | cons t ts ih =>
    obtain ⟨u1, s1, h1, h2⟩ := run_bind_ok.mp h
    obtain ⟨u3, s3, h3, h4⟩ := run_bind_ok.mp h1
    have b3 : s3.board = s.board := board_of_lift h3
    have b1 := moveTask_board h4 ⟨rfl, rfl⟩
    rw [b3] at b1
    rw [ih h2, b1]
    simp only [Board.move, Board.edit, List.map_map]
    congr 1
    refine List.map_congr_left fun c _ => ?_
    simp only [Function.comp, List.mem_cons, exists_eq_or_imp]
    by_cases e : t.id = c.id
    · rw [if_pos e.symm, if_pos (Or.inl e)]
      split <;> rfl
    · rw [if_neg (Ne.symm e)]
      by_cases k : ∃ a ∈ ts, a.id = c.id
      · rw [if_pos k, if_pos (Or.inr k)]
      · rw [if_neg k, if_neg (not_or.mpr ⟨e, k⟩)]

theorem mem_leavingTasks {ws : List Participant} {t : Task} (ht : t ∈ s.tasks.rows) :
    t ∈ s.leavingTasks ws ↔ Board.leaves (ws.map (·.id)) t.card = true := by
  have e : ∀ a, (ws.any fun w => w.id == a) = (ws.map (·.id)).contains a := by
    intro a
    rw [Bool.eq_iff_iff, List.any_eq_true, List.contains_iff_mem, List.mem_map]
    simp only [beq_iff_eq]
  simp only [Ledger.leavingTasks, List.mem_insertionSort, List.mem_filter, ht, true_and,
    Board.leaves, e, card_assignee, Bool.and_eq_true, Bool.or_eq_true, beq_iff_eq,
    phase_opened_iff, phase_held_iff]

theorem leavingTasks_mem {ws : List Participant} {t : Task} (h : t ∈ s.leavingTasks ws) :
    t ∈ s.tasks.rows := by
  simp only [Ledger.leavingTasks, List.mem_insertionSort, List.mem_filter] at h
  exact h.1

/-- What leaves with the windows is what their leaving dismisses. -/
theorem cancelEach_dismiss {reason : String} {ws : List Participant}
    (h : ((s.leavingTasks ws).forM (cancelLeaving reason)).run s = .ok (u, s')) :
    s'.board = s.board.dismiss (ws.map (·.id)) := by
  rw [cancelEach_board h]
  refine congrArg (fun cs => ({ s.board with cards := cs } : Board)) ?_
  refine List.map_congr_left fun c hc => ?_
  obtain ⟨t, ht, rfl⟩ := mem_cards.mp hc
  by_cases k : Board.leaves (ws.map (·.id)) t.card = true
  · rw [if_pos k, if_pos ⟨t, (mem_leavingTasks ht).mpr k, rfl⟩]
  · rw [if_neg k, if_neg]
    rintro ⟨r, hr, e⟩
    have hrm := leavingTasks_mem hr
    have eq : r = t := Table.eq_of_key hrm ht e
    subst eq
    exact k ((mem_leavingTasks hrm).mp hr)

/-- The windows of a member leave, one after the other: nothing on the board waits for them. -/
theorem closeEach_edits {ws : List Participant}
    (h : (ws.forM fun w => closeSession w false).run s = .ok (u, s'))
    (hr : ∀ w ∈ ws, ∀ q ∈ s.participants.rows, q.id = w.id → q.role ≠ .chief)
    (hf : ∀ w ∈ ws, ∀ c ∈ s.board.cards, c.phase = .opened → c.assignee ≠ some w.id) :
    Edits L d s.board d s'.board ∧ s'.board.cards = s.board.cards ∧ SameRole s.board s'.board := by
  induction ws generalizing s with
  | nil =>
    obtain ⟨-, rfl⟩ := run_pure_ok.mp h
    exact ⟨.refl _ _, rfl, fun q hq => ⟨q, hq, rfl, rfl⟩⟩
  | cons w ws ih =>
    obtain ⟨u1, s1, h1, h2⟩ := run_bind_ok.mp h
    obtain ⟨e1, c1, r1⟩ := closeSession_edits (L := L) (d := d) h1 (hr w List.mem_cons_self)
      (hf w List.mem_cons_self)
    obtain ⟨e2, c2, r2⟩ := ih h2
      (fun x hx q hq e => by
        obtain ⟨q0, hq0, e0, er⟩ := r1 q hq
        rw [← er]
        exact hr x (List.mem_cons_of_mem _ hx) q0 hq0 (e0.trans e))
      (fun x hx => c1 ▸ hf x (List.mem_cons_of_mem _ hx))
    refine ⟨e1.trans e2, c2.trans c1, fun q hq => ?_⟩
    obtain ⟨q1, hq1, e1, er1⟩ := r2 q hq
    obtain ⟨q0, hq0, e0, er0⟩ := r1 q1 hq1
    exact ⟨q0, hq0, e0.trans e1, er0.trans er1⟩

/-- Every card that waits for one that left is told of, and nothing of them is owed. -/
theorem tellEachLeft_edits {project : Nat} {ts : List Task}
    (h : (ts.forM (tellStrandedWaiters project)).run s = .ok (u, s')) (hw : Wired s.board)
    (ht : ∀ t ∈ ts, ∃ c ∈ s.board.cards, c.id = t.id ∧ c.project = project ∧
      c.phase = .cancelled) (hd : ∀ i ∈ d.untold, ∃ t ∈ ts, t.id = i) :
    ∃ d', Edits L d s.board d' s'.board ∧ d'.unmet = d.unmet ∧ d'.loose = d.loose ∧
      d'.untold = ∅ := by
  induction ts generalizing s d with
  | nil =>
    obtain ⟨-, rfl⟩ := run_pure_ok.mp h
    refine ⟨d, .refl _ _, rfl, rfl, Set.eq_empty_iff_forall_notMem.mpr fun i hi => ?_⟩
    obtain ⟨t, hm, -⟩ := hd i hi
    cases hm
  | cons t ts ih =>
    obtain ⟨u1, s1, h1, h2⟩ := run_bind_ok.mp h
    obtain ⟨c, hc, ec, hp, hx⟩ := ht t List.mem_cons_self
    obtain ⟨e1, o1⟩ := tellStrandedWaiters_edits (L := L) (d := d) h1 hw hc ec.symm hp hx
    obtain ⟨d', e2, k1, k2, k3⟩ := ih (d := { d with untold := d.untold \ {c.id} }) h2 (e1.wired hw)
      (fun x hx' => by
        rw [o1.cards]
        exact ht x (List.mem_cons_of_mem _ hx'))
      (fun i hi => by
        obtain ⟨x, hx', e⟩ := hd i hi.1
        rcases List.mem_cons.mp hx' with rfl | hx'
        · exact absurd (e.symm.trans ec.symm) hi.2
        · exact ⟨x, hx', e⟩)
    exact ⟨d', e1.trans e2, k1, k2, k3⟩

theorem sweepEach_board {reason : String} {ws : List Participant}
    (h : (ws.forM fun w => (liftM (sweepWindow reason w) : LedgerM Unit)).run s = .ok (u, s')) :
    s'.board = s.board :=
  run_forM_ok (P := fun a b : Ledger => b.board = a.board) (fun _ => rfl)
    (fun h k => k.trans h) (fun _ _ _ _ hk => board_of_lift hk) h

theorem closeWindows_edits {member : Participant} {ws : List Participant}
    (h : (closeWindows member ws).run s = .ok (u, s'))
    (hr : ∀ w ∈ member :: ws, ∀ q ∈ s.participants.rows, q.id = w.id → q.role ≠ .chief)
    (hf : ∀ w ∈ member :: ws, ∀ c ∈ s.board.cards, c.phase = .opened →
      c.assignee ≠ some w.id) :
    Edits L d s.board d s'.board ∧ s'.board.cards = s.board.cards := by
  obtain ⟨u1, s1, h1, h⟩ := run_bind_ok.mp h
  obtain ⟨e1, c1, r1⟩ := closeEach_edits (L := L) (d := d) h1
    (fun w hw => hr w (List.mem_cons_of_mem _ hw)) fun w hw => hf w (List.mem_cons_of_mem _ hw)
  obtain ⟨t, s2, h2, h⟩ := run_bind_ok.mp h
  obtain rfl := now_ok h2
  obtain rfl := updateParticipant_ok h
  have hre := Restaffed.leave s1 member.id t
    (fun q hq e => by
      obtain ⟨q0, hq0, e0, er⟩ := r1 q hq
      rw [← er]
      exact hr member List.mem_cons_self q0 hq0 (e0.trans e))
    (fun c hc => hf member List.mem_cons_self c (c1 ▸ hc))
  exact ⟨e1.trans (.staff hre), hre.cards.trans c1⟩

/-- What a window that left had on the board or in hand is cancelled. -/
theorem Board.dismissed {b : Board} {ws : List Nat} {c : Card} (hc : c ∈ (b.dismiss ws).cards)
    (ho : c.phase = .opened) {w : Nat} (hw : w ∈ ws) : c.assignee ≠ some w := by
  intro ha
  obtain ⟨x, -, rfl⟩ := List.mem_map.mp hc
  by_cases k : Board.leaves ws x = true
  · rw [if_pos k] at ho
    cases ho
  · rw [if_neg k] at ho ha
    refine k ?_
    unfold Board.leaves
    rw [ha, ho]
    simpa using hw

/-- The windows of a member are of its project, and none is the chief's. -/
theorem mem_windowsOf (hw : Wired s.board) {member : Participant}
    (hm : member ∈ s.participants.rows) (hr : member.role ∈ Role.memberRoles) {w : Participant}
    (h : w ∈ s.windowsOf member) :
    w ∈ s.participants.rows ∧ w.project = member.project ∧ w.role ∈ Role.memberRoles := by
  rcases List.mem_cons.mp h with rfl | h
  · exact ⟨hm, rfl, hr⟩
  · simp only [List.mem_filter, Bool.and_eq_true, beq_iff_eq] at h
    obtain ⟨hin, hid, -⟩ := h
    obtain ⟨q, hq, eq, ep⟩ := hw.members w hin _ hid
    rw [Table.eq_of_key hq hm eq] at ep
    refine ⟨hin, ep.symm, hw.sessions w hin ?_⟩
    rw [hid]
    rfl

/-- **A member leaves the staff**: its tasks go with it, and whatever waits for one of them is told
    of. -/
theorem removeMember_edits {project : Nat} {handle : String} {r : Participant × List Nat}
    (h : (removeMember project handle).run s = .ok (r, s')) (hw : Wired s.board) :
    s.Edited L s' := by
  obtain ⟨m, s1, h1, h⟩ := run_bind_ok.mp h
  obtain ⟨rfl, hm, -, hr, hp⟩ := staffMember_ok h1
  obtain ⟨s0, s2, h2, h⟩ := run_bind_ok.mp h
  obtain ⟨rfl, rfl⟩ := run_state_ok.mp h2
  obtain ⟨u3, s3, h3, h⟩ := run_bind_ok.mp h
  have b3 := cancelEach_dismiss h3
  obtain ⟨u4, s4, h4, h⟩ := run_bind_ok.mp h
  have b4 : s4.board = s3.board := sweepEach_board h4
  obtain ⟨u5, s5, h5, h⟩ := run_bind_ok.mp h
  obtain ⟨u6, s6, h6, h⟩ := run_bind_ok.mp h
  have b6 : s6.board = s5.board := board_of_lift h6
  obtain ⟨u7, s7, h7, h⟩ := run_bind_ok.mp h
  have b7 : s7.board = s6.board := board_of_lift h7
  obtain ⟨u8, s8, h8, h⟩ := run_bind_ok.mp h
  obtain ⟨row, s9, h9, h⟩ := run_bind_ok.mp h
  obtain ⟨rfl, -⟩ := participantRow_ok h9
  obtain ⟨-, rfl⟩ := run_pure_ok.mp h
  have win : ∀ {w}, w ∈ s.windowsOf m → _ := fun hw' => mem_windowsOf hw hm hr hw'
  -- the tasks go
  have e3 := (Edit.dismiss (L := L) .none (b := s.board) ((s.windowsOf m).map (·.id)) rfl).once
  rw [← b3, ← b4] at e3
  have ep : s4.participants = s.participants := by
    have e := congrArg Board.participants (b4.trans b3)
    exact e
  -- then the windows
  obtain ⟨e5, c5⟩ := closeWindows_edits (L := L) h5
    (fun w hw' q hq e => by
      obtain ⟨hwm, -, hwr⟩ := win hw'
      rw [Table.eq_of_key (ep ▸ hq) hwm e]
      exact Role.not_chief hwr)
    (fun w hw' c hc ho => by
      rw [b4, b3] at hc
      exact Board.dismissed hc ho (List.mem_map_of_mem hw'))
  obtain ⟨d7, e7, hu, hl, ht7⟩ : ∃ d7, Edits L .none s.board d7 s7.board ∧ d7.unmet = ∅ ∧
      d7.loose = ∅ ∧ ∀ i ∈ d7.untold, ∃ t ∈ s.leavingTasks (s.windowsOf m), t.id = i := by
    refine ⟨_, (e3.trans e5).desk (b7.trans b6), rfl, rfl, ?_⟩
    rintro i (hi | ⟨c, hc, e, hl⟩)
    · cases hi
    · obtain ⟨t, ht, rfl⟩ := mem_cards.mp hc
      exact ⟨t, (mem_leavingTasks ht).mpr hl, e⟩
  -- and what waits for a task that went is told of
  have c7 : s7.board.cards = (s.board.dismiss ((s.windowsOf m).map (·.id))).cards := by
    rw [b7, b6, c5, b4, b3]
  obtain ⟨d', e8, k1, k2, k3⟩ := tellEachLeft_edits (L := L) h8 (e7.wired hw)
    (fun t ht => by
      have htm := leavingTasks_mem ht
      have hl := (mem_leavingTasks htm).mp ht
      refine ⟨{ t.card with phase := .cancelled }, ?_, rfl, ?_, rfl⟩
      · rw [c7]
        refine List.mem_map.mpr ⟨t.card, card_mem htm, ?_⟩
        rw [if_pos hl]
      · simp only [Board.leaves, Bool.and_eq_true, Option.any_eq_true, List.contains_iff_mem] at hl
        obtain ⟨⟨a, ha, hin⟩, -⟩ := hl
        obtain ⟨w, hwin, rfl⟩ := List.mem_map.mp hin
        obtain ⟨hwm, hwp, -⟩ := win hwin
        obtain ⟨q, hq, eq, eqp⟩ := hw.windows _ (card_mem htm) _ ha
        rw [Table.eq_of_key hq hwm eq, hwp, hp] at eqp
        exact eqp.symm) ht7
  exact ⟨d', ⟨k1.trans hu, k3, k2.trans hl⟩, e7.trans e8⟩

end Leaving

end ConsensFlow
