/-
  File:      ConsensFlow/Edits/Delivering.lean
  Subject:   THE EDITS OF A DELIVERY GIVEN UP, of a message declined and of a tell's pause.

  * `failQueued_edits`, `failFor_edits` -- a task fails with its brief, or with words told to it.
    No message is both, so one delivery fails its task once;
  * **`giveUpDelivery_edits`**, **`declineMessage_edits`**, **`ask_edits`** -- the calls.
-/
import ConsensFlow.Edits.Finishing

namespace ConsensFlow

open Lib Txn

/-! ## 1. Given up -/

section GiveUp

variable {L : Licence} {s s' : Ledger} {u : Unit}

/-- A brief that failed fails its task, where it is queued still. -/
theorem failQueued_edits {m : Message} {t : Task} (hR : L.Fair)
    (h : (failQueued m t).run s = .ok (u, s')) (hw : Wired s.board)
    (hc : t.card ∈ s.board.cards) :
    s.Edited L s' ∧ (m.kind ≠ .task → s = s') := by
  rcases run_doWhen_ok.mp h with ⟨hk, h⟩ | ⟨-, rfl⟩
  · simp only [Bool.and_eq_true, beq_iff_eq] at hk
    obtain ⟨u1, s1, h1, h2⟩ := run_bind_ok.mp h
    have hp : t.card.phase = .held := phase_held_iff.mpr (by rw [hk.2]; rfl)
    exact ⟨failed_released hR hw rfl hc rfl (Or.inr hp) h1 h2, fun hn => absurd hk.1 hn⟩
  · exact ⟨.of_board rfl, fun _ => rfl⟩

/-- Words told to its window and given up for good fail a task at work. -/
theorem failFor_edits {m : Message} {t : Task} (hR : L.Fair)
    (h : (failFor m t).run s = .ok (u, s')) (hw : Wired s.board)
    (hc : m.kind = .note → t.card ∈ s.board.cards) :
    s.Edited L s' ∧ (m.kind ≠ .note → s = s') := by
  obtain ⟨o, s1, h1, h⟩ := run_bind_ok.mp h
  obtain rfl := assigneeOf_ok h1
  obtain ⟨s0, s2, h2, h⟩ := run_bind_ok.mp h
  obtain ⟨rfl, rfl⟩ := run_state_ok.mp h2
  split at h
  · obtain ⟨-, rfl⟩ := run_pure_ok.mp h
    exact ⟨.of_board rfl, fun _ => rfl⟩
  · next hcond =>
    simp only [Bool.or_eq_true, Bool.not_eq_true', not_or, Bool.not_eq_false] at hcond
    have hk : m.kind = .note := by
      have := hcond.2
      simp only [Ledger.isTold, Message.told, Bool.and_eq_true, beq_iff_eq] at this
      exact this.1.1.1
    obtain ⟨u3, s3, h3, h4⟩ := run_bind_ok.mp h
    have hp : t.card.phase = .held := phase_held_iff.mpr hcond.1
    exact ⟨failed_released hR hw rfl (hc hk) rfl (Or.inr hp) h3 h4, fun hn => absurd hk hn⟩

theorem failedFor_edits {m : Message} {t : Task} {reason : String} (hR : L.Fair)
    (h : (failedFor m t reason).run s = .ok (u, s')) (hw : Wired s.board)
    (hc : t.card ∈ s.board.cards) : s.Edited L s' := by
  obtain ⟨u1, s1, h1, h⟩ := run_bind_ok.mp h
  have b1 : s1.board = s.board := board_of_lift h1
  obtain ⟨u2, s2, h2, h⟩ := run_bind_ok.mp h
  obtain ⟨u3, s3, h3, h⟩ := run_bind_ok.mp h
  have b4 : s'.board = s3.board := by
    rcases run_doWhen_ok.mp h with ⟨-, h⟩ | ⟨-, rfl⟩
    · exact board_of_lift h
    · rfl
  have hw1 : Wired s1.board := b1 ▸ hw
  have hc1 : t.card ∈ s1.board.cards := b1 ▸ hc
  obtain ⟨e2, q2⟩ := failQueued_edits hR h2 hw1 hc1
  have e3 : s1.Edited L s3 := by
    by_cases hk : m.kind = .task
    · have hn : m.kind ≠ .note := by
        rw [hk]
        nofun
      have hw2 : Wired s2.board := by
        obtain ⟨d, -, e⟩ := e2
        exact e.wired hw1
      obtain rfl := (failFor_edits hR h3 hw2 fun k => absurd k hn).2 hn
      exact e2
    · obtain rfl := q2 hk
      exact (failFor_edits hR h3 hw1 fun _ => hc1).1
  obtain ⟨d, hd, e⟩ := e3
  exact Ledger.Edited.desk ⟨d, hd, b1 ▸ e⟩ b4

theorem failMessage_edits {m : Message} {reason : String} {r : GivenUp} (hR : L.Fair)
    (h : (failMessage m reason).run s = .ok (r, s')) (hw : Wired s.board) : s.Edited L s' := by
  obtain ⟨gone, s1, h1, h⟩ := run_bind_ok.mp h
  have b1 : s1.board = s.board := board_of_lift h1
  split at h
  · obtain ⟨-, rfl⟩ := run_pure_ok.mp h
    exact .of_board b1
  · obtain ⟨kept, s2, h2, h⟩ := run_bind_ok.mp h
    have b2 : s2.board = s1.board := board_of_lift h2
    split at h
    · obtain ⟨-, rfl⟩ := run_pure_ok.mp h
      exact .of_board (b2.trans b1)
    · obtain ⟨u3, s3, h3, h⟩ := run_bind_ok.mp h
      have b3 : s3.board = s2.board := board_of_lift h3
      obtain ⟨u4, s4, h4, h⟩ := run_bind_ok.mp h
      have b4 : s4.board = s3.board := board_of_lift h4
      obtain ⟨t, s5, h5, h⟩ := run_bind_ok.mp h
      obtain ⟨rfl, ht⟩ := messageTask_ok h5
      have b : s4.board = s.board := b4.trans (b3.trans (b2.trans b1))
      obtain ⟨u6, s6, h6, h⟩ := run_bind_ok.mp h
      obtain ⟨-, rfl⟩ := run_pure_ok.mp h
      cases t with
      | none =>
        obtain ⟨-, rfl⟩ := run_pure_ok.mp h6
        exact .of_board b
      | some t =>
        obtain ⟨d, hd, e⟩ := failedFor_edits (L := L) hR h6 (b ▸ hw) (card_mem (ht t rfl))
        exact ⟨d, hd, b ▸ e⟩

/-- What becomes of a message for its task's sake: the task is paused again, or the board is as
    it was. -/
theorem givenUpFor_edits {m : Message} {t : Task} {reason : String} {r : Option GivenUp}
    (h : (givenUpFor m t reason).run s = .ok (r, s')) (hw : Wired s.board)
    (hc : t.card ∈ s.board.cards) :
    s'.board = s.board ∨ (r = some .paused ∧ s.Edited L s') := by
  obtain ⟨late, s1, h1, h⟩ := run_bind_ok.mp h
  have b1 : s1.board = s.board := board_of_lift h1
  split at h
  · obtain ⟨-, rfl⟩ := run_pure_ok.mp h
    exact Or.inl b1
  · obtain ⟨kept, s2, h2, h⟩ := run_bind_ok.mp h
    have b2 : s2.board = s.board := (board_of_lift h2).trans b1
    split at h
    · obtain ⟨-, rfl⟩ := run_pure_ok.mp h
      exact Or.inl b2
    · obtain ⟨paused, s3, h3, h⟩ := run_bind_ok.mp h
      obtain ⟨rfl, rfl⟩ := run_pure_ok.mp h
      rcases pauseAgain_edits (L := L) (d := .none) h3 (b2 ▸ hw) (b2 ▸ hc) rfl with
        ⟨-, rfl⟩ | ⟨rfl, e⟩
      · exact Or.inl b2
      · rw [b2] at e
        exact Or.inr ⟨rfl, .of_still ⟨_, e, rfl, rfl, rfl⟩⟩

/-- **A delivery given up.** -/
theorem giveUpDelivery_edits {id : Nat} {reason : String} {r : Message × GivenUp} (hR : L.Fair)
    (h : (giveUpDelivery id reason).run s = .ok (r, s')) (hw : Wired s.board) : s.Edited L s' := by
  obtain ⟨u1, s1, h1, h⟩ := run_bind_ok.mp h
  obtain rfl := requireText_ok h1
  obtain ⟨m, s2, h2, h⟩ := run_bind_ok.mp h
  obtain ⟨rfl, -⟩ := requireMessage_ok h2
  obtain ⟨t, s3, h3, h⟩ := run_bind_ok.mp h
  obtain ⟨rfl, ht⟩ := messageTask_ok h3
  obtain ⟨settled, s4, h4, h⟩ := run_bind_ok.mp h
  obtain ⟨what, s5, h5, h⟩ := run_bind_ok.mp h
  obtain ⟨m', s6, h6, h⟩ := run_bind_ok.mp h
  obtain ⟨rfl, -⟩ := knownMessage_ok h6
  obtain ⟨-, rfl⟩ := run_pure_ok.mp h
  have e4 : s4.board = s.board ∨ (settled = some .paused ∧ s.Edited L s4) := by
    cases t with
    | none =>
      obtain ⟨-, rfl⟩ := run_pure_ok.mp h4
      exact Or.inl rfl
    | some t => exact givenUpFor_edits h4 hw (card_mem (ht t rfl))
  cases settled with
  | some what =>
    obtain ⟨-, rfl⟩ := run_pure_ok.mp h5
    rcases e4 with b | ⟨-, e⟩
    · exact .of_board b
    · exact e
  | none =>
    rcases e4 with b | ⟨k, -⟩
    · obtain ⟨d, hd, e⟩ := failMessage_edits (L := L) hR h5 (b ▸ hw)
      exact ⟨d, hd, b ▸ e⟩
    · cases k

end GiveUp

/-! ## 2. Declined, and asked -/

section Asked

variable {L : Licence} {s s' : Ledger} {u : Unit}

theorem declineTask_edits {m : Message} {t : Task} {by_ : String} {r : String × String}
    (hR : L.Fair) (h : (declineTask m t by_).run s = .ok (r, s')) (hw : Wired s.board) :
    s.Edited L s' := by
  obtain ⟨p, s1, h1, h⟩ := run_bind_ok.mp h
  obtain ⟨rfl, -⟩ := participantRow_ok h1
  obtain ⟨off, s2, h2, h⟩ := run_bind_ok.mp h
  have e2 := callOff_edits (L := L) hR h2 hw
  obtain ⟨s0, s3, h3, h⟩ := run_bind_ok.mp h
  obtain ⟨rfl, rfl⟩ := run_state_ok.mp h3
  obtain ⟨u4, s4, h4, h⟩ := run_bind_ok.mp h
  obtain ⟨-, rfl⟩ := run_pure_ok.mp h
  exact e2.desk (board_of_lift h4)

/-- **A message declined**: its task, where it is a brief, is called off. -/
theorem declineMessage_edits {id : Nat} {by_ : String} {r : Message} (hR : L.Fair)
    (h : (declineMessage id by_).run s = .ok (r, s')) (hw : Wired s.board) : s.Edited L s' := by
  obtain ⟨m, s1, h1, h⟩ := run_bind_ok.mp h
  obtain ⟨rfl, -⟩ := requireMessage_ok h1
  obtain ⟨p, s2, h2, h⟩ := run_bind_ok.mp h
  obtain ⟨rfl, -⟩ := participantByHandle_ok h2
  obtain ⟨u3, s3, h3, h⟩ := run_bind_ok.mp h
  obtain ⟨-, rfl⟩ := run_require_ok.mp h3
  obtain ⟨u4, s4, h4, h⟩ := run_bind_ok.mp h
  have b4 : s4.board = s.board := board_of_lift h4
  obtain ⟨u5, s5, h5, h⟩ := run_bind_ok.mp h
  have b5 : s5.board = s4.board := board_of_lift h5
  obtain ⟨u6, s6, h6, h⟩ := run_bind_ok.mp h
  have b6 : s6.board = s5.board := by
    rcases run_doWhen_ok.mp h6 with ⟨-, h6⟩ | ⟨-, rfl⟩
    · exact board_of_lift h6
    · rfl
  obtain ⟨t, s7, h7, h⟩ := run_bind_ok.mp h
  obtain ⟨rfl, -⟩ := messageTask_ok h7
  obtain ⟨s0, s8, h8, h⟩ := run_bind_ok.mp h
  obtain ⟨rfl, rfl⟩ := run_state_ok.mp h8
  obtain ⟨w, s9, h9, h⟩ := run_bind_ok.mp h
  obtain ⟨u10, s10, h10, h⟩ := run_bind_ok.mp h
  have b10 : s10.board = s9.board := by
    rcases run_doWhen_ok.mp h10 with ⟨-, h10⟩ | ⟨-, rfl⟩
    · obtain ⟨n, s11, h11, h12⟩ := run_bind_ok.mp h10
      obtain ⟨-, rfl⟩ := run_pure_ok.mp h12
      exact board_of_lift h11
    · rfl
  obtain ⟨rfl, -⟩ := knownMessage_ok h
  have b : s6.board = s.board := b6.trans (b5.trans b4)
  refine Ledger.Edited.desk ?_ b10
  unfold wordOfDeclined at h9
  split at h9
  · split at h9
    · obtain ⟨r', h9, -⟩ := run_map_ok.mp h9
      obtain ⟨d, hd, e⟩ := declineTask_edits (L := L) hR h9 (b ▸ hw)
      exact ⟨d, hd, b ▸ e⟩
    · obtain ⟨-, rfl⟩ := run_pure_ok.mp h9
      exact .of_board b
  · obtain ⟨-, rfl⟩ := run_pure_ok.mp h9
    exact .of_board b

theorem pauseForTell_edits {project number : Nat} {sender : String}
    (h : (pauseForTell project number sender).run s = .ok (u, s')) (hw : Wired s.board) :
    s.Edited L s' := by
  obtain ⟨t, s1, h1, h⟩ := run_bind_ok.mp h
  obtain ⟨rfl, ht, -⟩ := taskRow_ok h1
  obtain ⟨s0, s2, h2, h⟩ := run_bind_ok.mp h
  obtain ⟨rfl, rfl⟩ := run_state_ok.mp h2
  split at h
  · obtain ⟨taken, s3, h3, h⟩ := run_bind_ok.mp h
    obtain ⟨-, rfl⟩ := run_pure_ok.mp h
    rcases takeOverPause_ok (L := L) (d := .none) h3 hw ht rfl with ⟨-, rfl⟩ | ⟨-, e⟩
    · exact .of_board rfl
    · exact .of_still ⟨_, e, rfl, rfl, rfl⟩
  · obtain ⟨r, s3, h3, h⟩ := run_bind_ok.mp h
    obtain ⟨-, rfl⟩ := run_pure_ok.mp h
    exact .of_still (pauseTaskAs_edits h3 hw rfl)

/-- **A question**: an urgent one pauses its task first. -/
theorem ask_edits {project : Nat} {q : NewQuestion} {r : Message}
    (h : (ask project q).run s = .ok (r, s')) (hw : Wired s.board) : s.Edited L s' := by
  obtain ⟨sender, s1, h1, h⟩ := run_bind_ok.mp h
  obtain ⟨-, rfl⟩ := run_found_ok.mp h1
  obtain ⟨p, s2, h2, h⟩ := run_bind_ok.mp h
  obtain ⟨rfl, -⟩ := participantByHandle_ok h2
  obtain ⟨u3, s3, h3, h⟩ := run_bind_ok.mp h
  obtain ⟨-, rfl⟩ := run_require_ok.mp h3
  obtain ⟨u4, s4, h4, h⟩ := run_bind_ok.mp h
  have b5 : s'.board = s4.board := board_of_lift h
  refine Ledger.Edited.desk ?_ b5
  rcases run_doWhen_ok.mp h4 with ⟨-, h4⟩ | ⟨-, rfl⟩
  · obtain ⟨number, s5, h5, h4⟩ := run_bind_ok.mp h4
    obtain ⟨-, rfl⟩ := run_found_ok.mp h5
    exact pauseForTell_edits h4 hw
  · exact .of_board rfl

end Asked

end ConsensFlow
