/-
  File:      ConsensFlow/Edits/Finishing.lean
  Subject:   THE EDITS OF A TASK THAT ENDS, and of one sent back.

  * `Ledger.Edited` -- a call is a chain of edits that leaves nothing owed;
  * `Ledger.Edited.released` -- the common end: what a move made ready goes to its window;
  * **`recordCounted_edits`**, **`accepted_edits`**, **`reopenTask_edits`**, **`callOff_edits`**,
    **`failAs_edits`**, **`deleteTasks_edits`** -- the calls.
-/
import ConsensFlow.Edits.Pausing

namespace ConsensFlow

open Lib Txn

/-! ## 1. A call and what it owes -/

section Edited

variable {L : Licence} {s s' : Ledger} {u : Unit}

/-- A call made a chain of edits, and nothing is owed after it. -/
def Ledger.Edited (L : Licence) (s s' : Ledger) : Prop :=
  ∃ d : Debt, d.Paid ∧ Edits L .none s.board d s'.board

theorem Ledger.Edited.of_board (h : s'.board = s.board) : s.Edited L s' :=
  ⟨.none, Debt.paid_none, .of_eq h⟩

theorem Ledger.Edited.desk {s1 : Ledger} (h : s.Edited L s1) (hb : s'.board = s1.board) :
    s.Edited L s' := by
  obtain ⟨d, hd, he⟩ := h
  exact ⟨d, hd, he.desk hb⟩

theorem Ledger.Edited.of_still (h : ∃ d, Edits L .none s.board d s'.board ∧ Debt.none.Still d) :
    s.Edited L s' := by
  obtain ⟨d, he, hd⟩ := h
  exact ⟨d, hd.paid Debt.paid_none, he⟩

/-- **What a move made ready goes to its window**: the end of a call that owes the release of one
    project. -/
theorem Ledger.Edited.released {s1 s2 : Ledger} {project : Nat} {d : Debt} (hR : L.Fair)
    (hw : Wired s.board) (he : Edits L .none s.board d s1.board) (hb : s2.board = s1.board)
    (h : (releaseReady project).run s2 = .ok (u, s')) (hu : d.unmet = ∅) (ht : d.untold = ∅)
    (hl : d.loose ⊆ {project}) : s.Edited L s' := by
  obtain ⟨d', e', hd', -⟩ := releaseReady_edits (d := d) hR h (hb ▸ he.wired hw) hu
  rw [hb] at e'
  refine ⟨d', ⟨hd'.unmet.trans hu, hd'.untold.trans ht, ?_⟩, he.trans e'⟩
  rw [hd'.loose]
  exact Set.eq_empty_iff_forall_notMem.mpr fun x hx => hx.2 (hl hx.1)

theorem loosened_subset {d : Debt} {project : Nat} (h : d.loose = ∅) :
    (d.loosen project).loose ⊆ {project} := by
  rintro x (rfl | hx)
  · rfl
  · rw [h] at hx
    cases hx

end Edited

/-! ## 2. A result -/

section Result

variable {L : Licence} {s s' : Ledger} {u : Unit}

/-- The chief's own step: done, and accepted in the same call. -/
theorem finishOwn_edits {project : Nat} {t : Task} {body : String} {r : TaskMoved} (hR : L.Fair)
    (h : (finishOwn project t body).run s = .ok (r, s')) (hw : Wired s.board)
    (ht : t ∈ s.tasks.rows) (hp : t.project = project) : s.Edited L s' := by
  obtain ⟨u1, s1, h1, h⟩ := run_bind_ok.mp h
  obtain ⟨rfl, hdel, hst⟩ := requireTaskState_ok h1
  obtain ⟨chief, s2, h2, h⟩ := run_bind_ok.mp h
  obtain ⟨rfl, -⟩ := participantRow_ok h2
  obtain ⟨s0, s3, h3, h⟩ := run_bind_ok.mp h
  obtain ⟨rfl, rfl⟩ := run_state_ok.mp h3
  obtain ⟨u4, s4, h4, h⟩ := run_bind_ok.mp h
  have b4 : s4.board = s.board := board_of_lift h4
  obtain ⟨id, s5, h5, h⟩ := run_bind_ok.mp h
  have b5 : s5.board = s4.board := board_of_lift h5
  have b : s5.board = s.board := b5.trans b4
  obtain ⟨u6, s6, h6, h⟩ := run_bind_ok.mp h
  have hc5 : t.card ∈ s5.board.cards := b ▸ card_mem ht
  have e6 : Edits L .none s5.board (Debt.none.touch t.card) s6.board :=
    moveTask_shift h6 (b ▸ hw) hc5 rfl (.finished _ t.card (phase_inHand_iff.mpr (by rw [hst]; rfl))
      (by simp [hdel]) rfl rfl) ⟨rfl, rfl⟩
  rw [b] at e6
  have hw6 := e6.wired hw
  obtain ⟨done, s7, h7, h⟩ := run_bind_ok.mp h
  obtain ⟨rfl, hdone, eid⟩ := taskById_ok h7
  obtain ⟨u8, s8, h8, h⟩ := run_bind_ok.mp h
  -- the row read again is the one done
  have b6 := moveTask_board h6 ⟨rfl, rfl⟩
  have hcard : done.card = { t.card with phase := .done } := by
    have hb6 : s6.board = s.board.put { t.card with phase := .done } := by
      rw [b6, b]
      exact hw.edit_eq_put (card_mem ht) (f := fun c => { c with phase := .done }) rfl
    have hm : done.card ∈ (s.board.put { t.card with phase := .done }).cards :=
      hb6 ▸ card_mem hdone
    rcases (@Board.mem_put _ _ { t.card with phase := .done } _ (card_mem ht) rfl).mp hm with
      e | ⟨-, k⟩
    · exact e
    · exact absurd eid k
  have e8 : Edits L (Debt.none.touch t.card) s6.board
      (((Debt.none.touch t.card).touch done.card).loosen done.card.project) s8.board :=
    moveTask_shift h8 hw6 (card_mem hdone) rfl
      (.accepted _ done.card (Or.inl (by rw [hcard])) rfl) ⟨rfl, rfl⟩
  obtain ⟨u9, s9, h9, h⟩ := run_bind_ok.mp h
  obtain ⟨row, s10, h10, h⟩ := run_bind_ok.mp h
  obtain ⟨rfl, -⟩ := taskById_ok h10
  simp only [run_bind_ok, run_state_ok, run_pure_ok] at h
  obtain ⟨s11, s12, ⟨rfl, rfl⟩, -, rfl⟩ := h
  refine Ledger.Edited.released hR hw (e6.trans e8) rfl h9 rfl rfl ?_
  have epr : done.card.project = project := by
    rw [hcard]
    exact hp
  rw [epr]
  exact loosened_subset rfl

/-- **A result**: the task is done, and what its window's being free makes ready is released. -/
theorem recordCounted_edits {project number : Nat} {body : String} {states : TaskState → Bool}
    {byWord : Bool} {r : TaskMoved} (hR : L.Fair)
    (h : (recordCounted project number body states byWord).run s = .ok (r, s'))
    (hw : Wired s.board)
    (hs : ∀ st, states st = true → (st.held || st == .paused) = true) : s.Edited L s' := by
  obtain ⟨u1, s1, h1, h⟩ := run_bind_ok.mp h
  obtain rfl := requireText_ok h1
  obtain ⟨t, s2, h2, h⟩ := run_bind_ok.mp h
  obtain ⟨rfl, ht, hp, -⟩ := taskRow_ok h2
  obtain ⟨own, s3, h3, h⟩ := run_bind_ok.mp h
  obtain rfl := isOwnStep_ok h3
  split at h
  · exact finishOwn_edits hR h hw ht hp
  · obtain ⟨u4, s4, h4, h⟩ := run_bind_ok.mp h
    obtain ⟨rfl, hdel, hst⟩ := requireTaskState_ok h4
    obtain ⟨u5, s5, h5, h⟩ := run_bind_ok.mp h
    have b5 : s5.board = s.board := board_of_lift h5
    obtain ⟨id, s6, h6, h⟩ := run_bind_ok.mp h
    have b6 : s6.board = s5.board := board_of_lift h6
    have b : s6.board = s.board := b6.trans b5
    obtain ⟨u7, s7, h7, h⟩ := run_bind_ok.mp h
    have e7 : Edits L .none s6.board (Debt.none.touch t.card) s7.board :=
      moveTask_shift h7 (b ▸ hw) (b ▸ card_mem ht) rfl
        (.finished _ t.card (phase_inHand_iff.mpr (hs _ hst)) (by simp [hdel]) rfl rfl) ⟨rfl, rfl⟩
    rw [b] at e7
    obtain ⟨u8, s8, h8, h⟩ := run_bind_ok.mp h
    obtain ⟨u9, s9, h9, h⟩ := run_bind_ok.mp h
    have b9 : s9.board = s8.board := by
      rcases run_doWhen_ok.mp h9 with ⟨-, h9⟩ | ⟨-, rfl⟩
      · exact board_of_lift h9
      · rfl
    obtain ⟨row, s10, h10, h⟩ := run_bind_ok.mp h
    obtain ⟨rfl, -⟩ := taskById_ok h10
    simp only [run_bind_ok, run_state_ok, run_pure_ok] at h
    obtain ⟨s11, s12, ⟨rfl, rfl⟩, -, rfl⟩ := h
    exact (Ledger.Edited.released hR hw e7 rfl h8 rfl rfl (Set.empty_subset _)).desk b9

/-- **Accepted**: what waited for the task may begin. -/
theorem accepted_edits {project : Nat} {t : Task} {by_ : String} {checked : Option (Nat × String)}
    {r : Task} (hR : L.Fair) (h : (accepted project t by_ checked).run s = .ok (r, s'))
    (hw : Wired s.board) (ht : t ∈ s.tasks.rows) (hp : t.project = project)
    (hst : t.state = .done ∨ t.state = .failed) : s.Edited L s' := by
  obtain ⟨u1, s1, h1, h⟩ := run_bind_ok.mp h
  have b1 : s1.board = s.board := board_of_lift h1
  obtain ⟨u2, s2, h2, h⟩ := run_bind_ok.mp h
  have e2 : Edits L .none s1.board ((Debt.none.touch t.card).loosen t.card.project) s2.board :=
    moveTask_shift h2 (b1 ▸ hw) (b1 ▸ card_mem ht) rfl
      (.accepted _ t.card (hst.imp phase_done_iff.mpr phase_failed_iff.mpr) rfl) ⟨rfl, rfl⟩
  rw [b1] at e2
  obtain ⟨u3, s3, h3, h⟩ := run_bind_ok.mp h
  obtain ⟨u4, s4, h4, h⟩ := run_bind_ok.mp h
  have b4 : s4.board = s3.board := board_of_lift h4
  obtain ⟨rfl, -⟩ := taskById_ok h
  refine Ledger.Edited.desk (Ledger.Edited.released hR hw e2 rfl h3 rfl rfl ?_) b4
  have epr : t.card.project = project := hp
  rw [epr]
  exact loosened_subset rfl

theorem acceptTask_edits {project number : Nat} {by_ : String} {r : Task} (hR : L.Fair)
    (h : (acceptTask project number by_).run s = .ok (r, s')) (hw : Wired s.board) :
    s.Edited L s' := by
  obtain ⟨p, s1, h1, h⟩ := run_bind_ok.mp h
  obtain ⟨rfl, -⟩ := participantByHandle_ok h1
  obtain ⟨t, s2, h2, h⟩ := run_bind_ok.mp h
  obtain ⟨rfl, ht, hp, -⟩ := taskRow_ok h2
  obtain ⟨u3, s3, h3, h⟩ := run_bind_ok.mp h
  obtain ⟨rfl, -, hst⟩ := requireTaskState_ok h3
  exact accepted_edits hR h hw ht hp (Or.inl (by simpa using hst))

theorem acceptFailedTask_edits {project number : Nat} {by_ checked : String} {r : Task}
    (hR : L.Fair) (h : (acceptFailedTask project number by_ checked).run s = .ok (r, s'))
    (hw : Wired s.board) : s.Edited L s' := by
  obtain ⟨p, s1, h1, h⟩ := run_bind_ok.mp h
  obtain ⟨rfl, -⟩ := participantByHandle_ok h1
  obtain ⟨t, s2, h2, h⟩ := run_bind_ok.mp h
  obtain ⟨rfl, ht, hp, -⟩ := taskRow_ok h2
  obtain ⟨u3, s3, h3, h⟩ := run_bind_ok.mp h
  obtain ⟨rfl, -, hst⟩ := requireTaskState_ok h3
  obtain ⟨u4, s4, h4, h⟩ := run_bind_ok.mp h
  obtain ⟨-, rfl⟩ := run_require_ok.mp h4
  obtain ⟨u5, s5, h5, h⟩ := run_bind_ok.mp h
  obtain rfl := requireText_ok h5
  exact accepted_edits hR h hw ht hp (Or.inr (by simpa using hst))

end Result

/-! ## 3. Sent back -/

section Reopen

variable {L : Licence} {s s' : Ledger} {u : Unit}

/-- What sending back asks of its licence: nothing has changed but the staff. -/
def Licence.Reopens (L : Licence) (s : Ledger) (project number : Nat) : Prop :=
  ∀ t ∈ s.tasks.rows, t.project = project → t.number = number →
    ∀ b w, Restaffed s.board b → L .reopened b t.card w

/-- The window a task is sent back to has none in hand. -/
theorem reopenInto_ok {number : Nat} {t : Task} {p : Participant}
    (h : (reopenInto number t).run s = .ok (p, s')) (hw : Wired s.board) :
    Restaffed s.board s'.board ∧ s'.tasks = s.tasks ∧ p ∈ s'.participants.rows ∧
      t.assignee = some p.id ∧ (s'.board.Session p.id → ¬ s'.board.InHand p.id) := by
  obtain ⟨q, s1, h1, h⟩ := run_bind_ok.mp h
  obtain ⟨rfl, hq, ha⟩ := participantOf_ok h1
  obtain ⟨c, s2, h2, h⟩ := run_bind_ok.mp h
  obtain rfl := canContinue_ok h2
  obtain ⟨u3, s3, h3, h⟩ := run_bind_ok.mp h
  obtain ⟨-, rfl⟩ := run_require_ok.mp h3
  obtain ⟨u4, s4, h4, h⟩ := run_bind_ok.mp h
  have free : q.memberId.isSome = true → ¬ s.board.InHand q.id :=
    fun hs => requireFree_inHand (by simp) h4 hw hs
  obtain ⟨rfl, -⟩ := requireFree_ok h4
  obtain ⟨p', s5, h5, h⟩ := run_bind_ok.mp h
  obtain ⟨u6, s6, h6, h⟩ := run_bind_ok.mp h
  obtain ⟨rfl, -⟩ := requireActive_ok h6
  obtain ⟨rfl, rfl⟩ := run_pure_ok.mp h
  unfold backAgain at h5
  split at h5
  · obtain ⟨hre, hp, eid, -, em, -⟩ := bringBack_ok h5 hq
    refine ⟨hre, bringBack_tasks h5, hp, by rw [eid]; exact ha, fun hs => ?_⟩
    rintro ⟨x, hx, k⟩
    have hm : q.memberId.isSome = true := em ▸ (session_iff hp).mp hs
    rw [eid] at k
    exact free hm ⟨x, hre.cards ▸ hx, k⟩
  · obtain ⟨rfl, rfl⟩ := run_pure_ok.mp h5
    exact ⟨Restaffed.refl _, rfl, hq, ha, fun hs => free ((session_iff hq).mp hs)⟩

/-- **A task is sent back to the window that did it.** -/
theorem reopenTask_edits {project number : Nat} {by_ body : String} {r : TaskMoved}
    (h : (reopenTask project number by_ body).run s = .ok (r, s')) (hw : Wired s.board)
    (hl : L.Reopens s project number) : s.Edited L s' := by
  obtain ⟨u1, s1, h1, h⟩ := run_bind_ok.mp h
  obtain rfl := requireText_ok h1
  obtain ⟨author, s2, h2, h⟩ := run_bind_ok.mp h
  obtain ⟨rfl, -⟩ := participantByHandle_ok h2
  obtain ⟨t, s3, h3, h⟩ := run_bind_ok.mp h
  obtain ⟨rfl, ht, hp, hn⟩ := taskRow_ok h3
  obtain ⟨u4, s4, h4, h⟩ := run_bind_ok.mp h
  obtain ⟨rfl, hdel, hst⟩ := requireTaskState_ok h4
  obtain ⟨u5, s5, h5, h⟩ := run_bind_ok.mp h
  obtain rfl := requireResultReceived_ok h5
  obtain ⟨p, s6, h6, h⟩ := run_bind_ok.mp h
  obtain ⟨hre, -, -, ha, hfree⟩ := reopenInto_ok h6 hw
  have hw6 := hw.restaff hre
  have hc6 : t.card ∈ s6.board.cards := hre.cards ▸ card_mem ht
  obtain ⟨u7, s7, h7, h⟩ := run_bind_ok.mp h
  have b7 : s7.board = s6.board := board_of_lift h7
  obtain ⟨u8, s8, h8, h⟩ := run_bind_ok.mp h
  have b8 : s8.board = s7.board := board_of_lift h8
  have b : s8.board = s6.board := b8.trans b7
  obtain ⟨s0, s9, h9, h⟩ := run_bind_ok.mp h
  obtain ⟨rfl, rfl⟩ := run_state_ok.mp h9
  obtain ⟨id, s10, h10, h⟩ := run_bind_ok.mp h
  have b10 : s10.board = s6.board.brief (some t.id) p.id := by
    rw [← b]
    exact queueCarrier_board h10
  obtain ⟨u11, s11, h11, h⟩ := run_bind_ok.mp h
  obtain ⟨u12, s12, h12, h⟩ := run_bind_ok.mp h
  have b12 : s12.board = s11.board := board_of_lift h12
  obtain ⟨row, s13, h13, h⟩ := run_bind_ok.mp h
  obtain ⟨rfl, -⟩ := taskById_ok h13
  obtain ⟨m, s14, h14, h⟩ := run_bind_ok.mp h
  obtain ⟨rfl, -⟩ := knownMessage_ok h14
  obtain ⟨-, rfl⟩ := run_pure_ok.mp h
  have hph : t.card.phase = .done ∨ t.card.phase = .failed := by
    simp only [Bool.or_eq_true, beq_iff_eq] at hst
    exact hst.imp phase_done_iff.mpr phase_failed_iff.mpr
  have he := (Edits.sent (d := .none) .reopened hw6 hc6 rfl ha b10 h11
    ⟨hph, ha, by simp [hdel], hfree⟩ (hl t ht hp hn _ _ hre) rfl
    (fun _ => Set.notMem_empty _)).1
  exact ⟨_, ⟨rfl, rfl, rfl⟩, ((Edits.staff hre).trans he).desk b12⟩

end Reopen

/-! ## 4. Called off, and given up -/

section CallOff

variable {L : Licence} {s s' : Ledger} {u : Unit}

theorem requireUnawaited_ok {R : Ledger → Ledger → Prop} [Frame R] {t : Task} {ending : Ending}
    (h : (requireUnawaited t ending : LedgerTxn R Unit).run s = .ok (u, s')) :
    s = s' ∧ s.waiters t.id = [] := by
  simp only [requireUnawaited, run_bind_ok, run_state_ok, run_require_ok] at h
  obtain ⟨s0, s1, ⟨rfl, rfl⟩, he, rfl⟩ := h
  exact ⟨rfl, List.isEmpty_iff.mp he⟩

theorem windowOf_ok {R : Ledger → Ledger → Prop} [Frame R] {t : Task} {p : Option Participant}
    (h : (windowOf t : LedgerTxn R (Option Participant)).run s = .ok (p, s')) : s = s' := by
  unfold windowOf at h
  split at h
  · obtain ⟨a, ha, -⟩ := run_map_ok.mp h
    exact (participantRow_ok ha).1
  · exact (run_pure_ok.mp h).2

/-- The waiters of a task are the cards that wait for it. -/
theorem waiters_nil {t : Nat} (h : s.waiters t = []) {c : Card} (hc : c ∈ s.board.cards)
    (hw : c.phase.waits = true) : (c.id, t) ∉ s.board.needs := by
  intro hn
  obtain ⟨r, hr, rfl⟩ := mem_cards.mp hc
  have hm : r.number ∈ s.waiters t :=
    List.mem_map.mpr ⟨r, List.mem_filter.mpr ⟨mem_needing.mpr ⟨hr, hn⟩, phase_waits_iff.mp hw⟩, rfl⟩
  rw [h] at hm
  cases hm

/-- **Called off**: nothing on the board waits for the task. -/
theorem callOff_edits {project number : Nat} {by_ : String} {ending : Ending} {r : CalledOff}
    (hR : L.Fair) (h : (callOff project number by_ ending).run s = .ok (r, s'))
    (hw : Wired s.board) : s.Edited L s' := by
  obtain ⟨p, s1, h1, h⟩ := run_bind_ok.mp h
  obtain ⟨rfl, -⟩ := participantByHandle_ok h1
  obtain ⟨t, s2, h2, h⟩ := run_bind_ok.mp h
  obtain ⟨rfl, ht, hp, -⟩ := taskRow_ok h2
  obtain ⟨u3, s3, h3, h⟩ := run_bind_ok.mp h
  obtain ⟨rfl, -, hst⟩ := requireTaskState_ok h3
  obtain ⟨u4, s4, h4, h⟩ := run_bind_ok.mp h
  have e4 : s = s4 := by
    rcases run_doWhen_ok.mp h4 with ⟨-, h4⟩ | ⟨-, rfl⟩
    · exact requireResultReceived_ok h4
    · rfl
  subst e4
  obtain ⟨u5, s5, h5, h⟩ := run_bind_ok.mp h
  obtain ⟨rfl, hwait⟩ := requireUnawaited_ok h5
  obtain ⟨s0, s6, h6, h⟩ := run_bind_ok.mp h
  obtain ⟨rfl, rfl⟩ := run_state_ok.mp h6
  obtain ⟨window, s7, h7, h⟩ := run_bind_ok.mp h
  obtain rfl := windowOf_ok h7
  obtain ⟨warnings, s8, h8, h⟩ := run_bind_ok.mp h
  have b8 : s8.board = s.board := board_of_lift h8
  obtain ⟨u9, s9, h9, h⟩ := run_bind_ok.mp h
  have b9 : s9.board = s8.board := board_of_lift h9
  obtain ⟨u10, s10, h10, h⟩ := run_bind_ok.mp h
  have b10 : s10.board = s9.board := board_of_lift h10
  have b : s10.board = s.board := b10.trans (b9.trans b8)
  obtain ⟨u11, s11, h11, h⟩ := run_bind_ok.mp h
  have hx : t.card.phase ≠ .accepted := by
    intro k
    rw [phase_accepted_iff.mp k] at hst
    cases hst
  have e11 : Edits L .none s10.board (((Debt.none.touch t.card).loosen t.card.project).hide t.card.id)
      s11.board :=
    moveTask_shift h11 (b ▸ hw) (b ▸ card_mem ht) rfl (.cancelled _ t.card hx rfl)
      ⟨rfl, rfl⟩
  rw [b] at e11
  have b11 : s11.board = s.board.put { t.card with phase := .cancelled } := by
    rw [moveTask_board h11 ⟨rfl, rfl⟩, b]
    exact hw.edit_eq_put (card_mem ht) (f := fun c => { c with phase := .cancelled }) rfl
  -- nothing that waits on the board needs it
  have told : ∀ c ∈ s11.board.cards, c.phase.waits = true → (c.id, t.card.id) ∈ s11.board.needs →
      s11.board.ToldOf c := by
    intro c hc hcw hcn
    rw [b11] at hc hcn
    rcases (@Board.mem_put _ _ { t.card with phase := .cancelled } _ (card_mem ht) rfl).mp hc with
      rfl | ⟨hc, -⟩
    · cases hcw
    · exact absurd hcn (waiters_nil hwait hc hcw)
  have e12 := e11.step (.allTold _ t.card.id told)
  obtain ⟨u12, s12, h12, h⟩ := run_bind_ok.mp h
  obtain ⟨-, rfl⟩ := run_pure_ok.mp h
  refine Ledger.Edited.released hR hw e12 rfl h12 rfl ?_ ?_
  · show insert t.card.id ∅ \ {t.card.id} = ∅
    simp
  · have epr : t.card.project = project := hp
    rw [epr]
    exact loosened_subset rfl

theorem cancelTask_edits {project number : Nat} {by_ : String} {r : Task} (hR : L.Fair)
    (h : (cancelTask project number by_).run s = .ok (r, s')) (hw : Wired s.board) :
    s.Edited L s' := by
  obtain ⟨off, s1, h1, h⟩ := run_bind_ok.mp h
  have e1 := callOff_edits (L := L) hR h1 hw
  obtain ⟨p, s2, h2, h⟩ := run_bind_ok.mp h
  obtain ⟨rfl, -⟩ := participantRow_ok h2
  obtain ⟨s0, s3, h3, h⟩ := run_bind_ok.mp h
  obtain ⟨rfl, rfl⟩ := run_state_ok.mp h3
  obtain ⟨u4, s4, h4, h⟩ := run_bind_ok.mp h
  have b4 : s4.board = s1.board := by
    rcases run_doWhen_ok.mp h4 with ⟨-, h4⟩ | ⟨-, rfl⟩
    · obtain ⟨m, s5, h5, h6⟩ := run_bind_ok.mp h4
      obtain ⟨-, rfl⟩ := run_pure_ok.mp h6
      exact board_of_lift h5
    · rfl
  obtain ⟨u5, s5, h5, h⟩ := run_bind_ok.mp h
  have b5 : s5.board = s4.board := board_of_lift h5
  obtain ⟨rfl, -⟩ := taskById_ok h
  exact e1.desk (b5.trans b4)

/-- A task fails, and what its window's being free makes ready is released. -/
theorem failed_released {t : Task} {det : Detail} {project : Nat} {s1 s2 : Ledger} {v : Unit}
    (hR : L.Fair) (hw : Wired s.board) (b : s1.board = s.board) (ht : t.card ∈ s.board.cards)
    (hp : t.project = project) (hst : t.card.phase = .opened ∨ t.card.phase = .held)
    (h1 : (moveTask t .failed det).run s1 = .ok (u, s2))
    (h2 : (releaseReady project).run s2 = .ok (v, s')) : s.Edited L s' := by
  have e : Edits L .none s1.board ((Debt.none.touch t.card).loosen t.card.project) s2.board :=
    moveTask_shift h1 (b ▸ hw) (b ▸ ht) rfl (.failed _ t.card hst rfl) ⟨rfl, rfl⟩
  rw [b] at e
  refine Ledger.Edited.released hR hw e rfl h2 rfl rfl ?_
  have epr : t.card.project = project := hp
  rw [epr]
  exact loosened_subset rfl

theorem failable_phase {t : Task} (h : t.state.failable = true) :
    t.card.phase = .opened ∨ t.card.phase = .held := by
  rw [phase_opened_iff, phase_held_iff]
  revert h
  cases t.state <;> simp [TaskState.failable, TaskState.held]

/-- **Given up, or failed.** -/
theorem failAs_edits {project number : Nat} {reason cause : String} {givenUp : Bool} {r : Task}
    (hR : L.Fair) (h : (failAs project number reason cause givenUp).run s = .ok (r, s'))
    (hw : Wired s.board) : s.Edited L s' := by
  obtain ⟨u1, s1, h1, h⟩ := run_bind_ok.mp h
  obtain rfl := requireText_ok h1
  obtain ⟨t, s2, h2, h⟩ := run_bind_ok.mp h
  obtain ⟨rfl, ht, hp, -⟩ := taskRow_ok h2
  obtain ⟨u3, s3, h3, h⟩ := run_bind_ok.mp h
  obtain ⟨rfl, -, hst⟩ := requireTaskState_ok h3
  obtain ⟨s0, s4, h4, h⟩ := run_bind_ok.mp h
  obtain ⟨rfl, rfl⟩ := run_state_ok.mp h4
  obtain ⟨u5, s5, h5, h⟩ := run_bind_ok.mp h
  have b5 : s5.board = s.board := board_of_lift h5
  obtain ⟨u6, s6, h6, h⟩ := run_bind_ok.mp h
  obtain ⟨u7, s7, h7, h⟩ := run_bind_ok.mp h
  obtain ⟨u8, s8, h8, h⟩ := run_bind_ok.mp h
  have b8 : s8.board = s7.board := board_of_lift h8
  obtain ⟨rfl, -⟩ := taskById_ok h
  exact (failed_released hR hw b5 (card_mem ht) hp (failable_phase hst) h6 h7).desk b8

end CallOff

/-! ## 5. Off the board for good -/

section Delete

variable {L : Licence} {s s' : Ledger} {u : Unit}

theorem deleteTask_edits {project number : Nat} {d : Debt}
    (h : (deleteTask project number).run s = .ok (u, s')) (hw : Wired s.board) (hu : d.unmet = ∅) :
    ∃ d', Edits L d s.board d' s'.board ∧ d.Still d' := by
  obtain ⟨t, s1, h1, h⟩ := run_bind_ok.mp h
  obtain ⟨rfl, ht, -⟩ := taskRow_ok h1
  obtain ⟨u2, s2, h2, h⟩ := run_bind_ok.mp h
  obtain ⟨rfl, -⟩ := requireOnBoard_ok h2
  obtain ⟨u3, s3, h3, h⟩ := run_bind_ok.mp h
  obtain ⟨hfin, rfl⟩ := run_require_ok.mp h3
  obtain ⟨s0, s4, h4, h⟩ := run_bind_ok.mp h
  obtain ⟨rfl, rfl⟩ := run_state_ok.mp h4
  obtain ⟨u5, s5, h5, h⟩ := run_bind_ok.mp h
  obtain ⟨unneeded, rfl⟩ := run_require_ok.mp h5
  -- one that failed goes only where all that needs it is finished
  have needing : t.card.phase = .failed → ∀ x ∈ s.board.cards, (x.id, t.card.id) ∈ s.board.needs →
      x.phase.finished = true := by
    intro failed x hx edge
    obtain ⟨w, hw', rfl⟩ := mem_cards.mp hx
    rw [if_pos (phase_failed_iff.mp failed), List.isEmpty_iff, List.map_eq_nil_iff,
      List.filter_eq_nil_iff] at unneeded
    have over_ := unneeded w (mem_needing.mpr ⟨hw', edge⟩)
    exact phase_finished_iff.mpr (by simpa using over_)
  obtain ⟨now', s6, h6, h⟩ := run_bind_ok.mp h
  have b6 : s6.board = s.board := board_of_lift h6
  obtain ⟨u7, s7, h7, h8⟩ := run_bind_ok.mp h
  have b8 : s'.board = s7.board := board_of_lift h8
  have e7 : Edits L d s6.board (d.touch t.card) s7.board :=
    updateTask_shift (g := fun c => { c with deleted := true }) (fun _ => rfl) h7 (b6 ▸ hw)
      (b6 ▸ card_mem ht) rfl rfl (.deleted d t.card (phase_finished_iff.mpr hfin) (b6 ▸ needing) hu)
      rfl
  rw [b6] at e7
  exact ⟨_, e7.desk b8, rfl, rfl, rfl⟩

theorem mapM_taskRow_ok {project : Nat} {ns : List Nat} {ts : List Task}
    (h : (ns.mapM (taskRow project) : LedgerM (List Task)).run s = .ok (ts, s')) : s = s' := by
  induction ns generalizing ts s' with
  | nil =>
    rw [List.mapM_nil] at h
    exact (run_pure_ok.mp h).2
  | cons n ns ih =>
    rw [List.mapM_cons] at h
    obtain ⟨t, s1, h1, h⟩ := run_bind_ok.mp h
    obtain ⟨rfl, -⟩ := taskRow_ok h1
    obtain ⟨ts', s2, h2, h⟩ := run_bind_ok.mp h
    obtain rfl := ih h2
    exact (run_pure_ok.mp h).2

/-- **Finished tasks leave the board.** -/
theorem deleteTasks_edits {project : Nat} {numbers : List Nat} {r : List Task}
    (h : (deleteTasks project numbers).run s = .ok (r, s')) (hw : Wired s.board) :
    s.Edited L s' := by
  obtain ⟨u1, s1, h1, h2⟩ := run_bind_ok.mp h
  obtain rfl := mapM_taskRow_ok h2
  have each : ∀ {ns : List Nat} {s s' : Ledger} {u : Unit} {d : Debt},
      (ns.forM (deleteTask project)).run s = .ok (u, s') → Wired s.board → d.unmet = ∅ →
      ∃ d', Edits L d s.board d' s'.board ∧ d.Still d' := by
    intro ns
    induction ns with
    | nil =>
      intro s s' u d h _ _
      obtain ⟨-, rfl⟩ := run_pure_ok.mp h
      exact ⟨d, .refl _ _, .refl d⟩
    | cons n ns ih =>
      intro s s' u d h hw hu
      obtain ⟨u1, s1, h1, h2⟩ := run_bind_ok.mp h
      obtain ⟨d1, e1, k1⟩ := deleteTask_edits (L := L) (d := d) h1 hw hu
      obtain ⟨d2, e2, k2⟩ := ih h2 (e1.wired hw) (k1.unmet.trans hu)
      exact ⟨d2, e1.trans e2, k1.trans k2⟩
  exact Ledger.Edited.of_still (each h1 hw rfl)

end Delete

end ConsensFlow
