/-
  File:      ConsensFlow/Edits/Base.lean
  Subject:   FROM A PROGRAM TO THE EDITS IT MAKES: what the checks ask, how a task's row is its
             card, and the edits of the statements and moves every call is made of.

  * `requireTaskState_ok`, `authorOf_ok`, … -- what a check that passed asked. It wrote nothing;
  * `board_of_desk`, `board_of_lift` -- a program of the desk leaves the board;
  * `ready_iff`, `takesNothing_iff`, … -- the tables' questions in the board's terms;
  * `moveTask_shift`, `updateTask_shift` -- a move, or a statement on one task, is one edit.
-/
import ConsensFlow.Invariants
import ConsensFlow.Machine

namespace ConsensFlow

open Lib Txn

/-! ## 1. What a check asks -/

section Checks

variable {R : Ledger → Ledger → Prop} [Frame R] {s s' : Ledger}

theorem requireOnBoard_ok {task : Task} {action : String} {u : Unit}
    (h : (requireOnBoard task action : LedgerTxn R Unit).run s = .ok (u, s')) :
    s = s' ∧ task.deletedAt = none := by
  obtain ⟨hc, rfl⟩ := run_require_ok.mp h
  exact ⟨rfl, by simpa using hc⟩

theorem requireTaskState_ok {task : Task} {states : TaskState → Bool} {action : String} {u : Unit}
    (h : (requireTaskState task states action : LedgerTxn R Unit).run s = .ok (u, s')) :
    s = s' ∧ task.deletedAt = none ∧ states task.state = true := by
  obtain ⟨u1, s1, h1, h⟩ := run_bind_ok.mp h
  obtain ⟨rfl, hd⟩ := requireOnBoard_ok h1
  obtain ⟨hc, rfl⟩ := run_require_ok.mp h
  exact ⟨rfl, hd, hc⟩

theorem isOwnStep_ok {task : Task} {own : Bool}
    (h : (isOwnStep task : LedgerTxn R Bool).run s = .ok (own, s')) : s = s' := by
  unfold isOwnStep at h
  split at h
  · exact (run_pure_ok.mp h).2
  · obtain ⟨p, s1, h1, h⟩ := run_bind_ok.mp h
    obtain ⟨rfl, -⟩ := participantRow_ok h1
    exact (run_pure_ok.mp h).2

theorem authorOf_ok {project : Nat} {by_ : Option String} {p : Option Participant}
    (h : (authorOf project by_ : LedgerTxn R (Option Participant)).run s = .ok (p, s')) :
    s = s' := by
  cases by_ with
  | none => exact (run_pure_ok.mp h).2
  | some handle =>
    obtain ⟨a, ha, -⟩ := run_map_ok.mp h
    exact (participantByHandle_ok ha).1

theorem requireResultReceived_ok {task : Task} {by_ : String} {u : Unit}
    (h : (requireResultReceived task by_ : LedgerTxn R Unit).run s = .ok (u, s')) : s = s' := by
  simp only [requireResultReceived, run_bind_ok, run_state_ok, run_require_ok] at h
  obtain ⟨s0, s1, ⟨rfl, rfl⟩, -, rfl⟩ := h
  rfl

end Checks

/-! ## 2. Rows and cards -/

section Cards

variable {s s' : Ledger} {t : Task}

/-- A program of the desk leaves the board as it is. -/
theorem board_of_desk {α : Type} {m : DeskM α} {a : α} (h : m.run s = .ok (a, s')) :
    s'.board = s.board := (m.within h).board

theorem board_of_lift {α : Type} {m : DeskM α} {a : α}
    (h : (liftM m : LedgerM α).run s = .ok (a, s')) : s'.board = s.board :=
  board_of_desk (m := m) h

theorem card_mem (h : t ∈ s.tasks.rows) : t.card ∈ s.board.cards := List.mem_map_of_mem h

theorem mem_cards {c : Card} : c ∈ s.board.cards ↔ ∃ t ∈ s.tasks.rows, t.card = c := List.mem_map

@[simp] theorem card_project (t : Task) : t.card.project = t.project := rfl
@[simp] theorem card_number (t : Task) : t.card.number = t.number := rfl
@[simp] theorem card_assignee (t : Task) : t.card.assignee = t.assignee := rfl
@[simp] theorem card_pool (t : Task) : t.card.pool = t.pool := rfl
@[simp] theorem card_deleted (t : Task) : t.card.deleted = t.deletedAt.isSome := rfl

theorem phase_opened_iff : t.card.phase = .opened ↔ t.state = .opened := by
  simp only [Task.card]
  cases t.state <;> simp [TaskState.phase]

theorem phase_done_iff : t.card.phase = .done ↔ t.state = .done := by
  simp only [Task.card]
  cases t.state <;> simp [TaskState.phase]

theorem phase_failed_iff : t.card.phase = .failed ↔ t.state = .failed := by
  simp only [Task.card]
  cases t.state <;> simp [TaskState.phase]

theorem phase_accepted_iff : t.card.phase = .accepted ↔ t.state = .accepted := by
  simp only [Task.card]
  cases t.state <;> simp [TaskState.phase]

theorem phase_cancelled_iff : t.card.phase = .cancelled ↔ t.state = .cancelled := by
  simp only [Task.card]
  cases t.state <;> simp [TaskState.phase]

theorem phase_held_iff : t.card.phase = .held ↔ t.state.held = true := by
  simp only [Task.card]
  cases t.state <;> simp [TaskState.phase, TaskState.held]

theorem phase_paused_iff {u p : Bool} : t.card.phase = .paused u p ↔
    t.state = .paused ∧ t.heldUntil.isSome = u ∧ t.pausedWithProject = p := by
  simp only [Task.card]
  cases t.state <;> simp [TaskState.phase]

theorem phase_paused (h : t.state = .paused) :
    t.card.phase = .paused t.heldUntil.isSome t.pausedWithProject :=
  phase_paused_iff.mpr ⟨h, rfl, rfl⟩

theorem phase_inHand_iff :
    t.card.phase.inHand = true ↔ (t.state.held || t.state == .paused) = true := by
  simp only [Task.card]
  cases t.state <;> simp [TaskState.phase, TaskState.held, Phase.inHand]

theorem phase_waits_iff :
    t.card.phase.waits = true ↔ (t.state == .opened || t.state == .paused) = true := by
  simp only [Task.card]
  cases t.state <;> simp [TaskState.phase, Phase.waits]

theorem phase_finished_iff : t.card.phase.finished = true ↔ t.state.finished = true := by
  simp only [Task.card]
  cases t.state <;> simp [TaskState.phase, TaskState.finished, Phase.finished]

/-- The rows a task needs, by the edges of the plan. -/
theorem mem_needed {d : Task} {task : Nat} :
    d ∈ s.needed task ↔ d ∈ s.tasks.rows ∧ (task, d.id) ∈ s.needs := by
  simp [Ledger.needed]

theorem mem_needing {d : Task} {task : Nat} :
    d ∈ s.needing task ↔ d ∈ s.tasks.rows ∧ (d.id, task) ∈ s.needs := by
  simp [Ledger.needing]

/-- Every need of a task is accepted where each row it needs is. -/
theorem met_iff (hw : Wired s.board) {task : Nat} : s.board.Met task ↔
    (s.needed task).all (fun d => d.state == .accepted) = true := by
  rw [List.all_eq_true]
  constructor
  · intro h d hd
    obtain ⟨hd, hn⟩ := mem_needed.mp hd
    have hp : d.card.phase = .accepted := (hw.is_iff (card_mem hd)).mp (h d.id hn)
    exact beq_iff_eq.mpr (phase_accepted_iff.mp hp)
  · intro h n hn
    obtain ⟨x, -, y, hy, -, ey, -⟩ := hw.edges _ hn
    obtain ⟨d, hd, rfl⟩ := mem_cards.mp hy
    have hn' : (task, d.id) ∈ s.needs := by
      have e : d.id = n := ey
      rw [e]
      exact hn
    have := h d (mem_needed.mpr ⟨hd, hn'⟩)
    exact ⟨d.card, hy, ey, phase_accepted_iff.mpr (beq_iff_eq.mp this)⟩

theorem hasTaskInHand_iff {w : Nat} : s.hasTaskInHand w = true ↔ s.board.InHand w := by
  simp only [Ledger.hasTaskInHand, List.any_eq_true, Bool.and_eq_true, beq_iff_eq]
  constructor
  · rintro ⟨t, ht, ha, hp⟩
    exact ⟨t.card, card_mem ht, ha, phase_inHand_iff.mpr hp⟩
  · rintro ⟨c, hc, ha, hp⟩
    obtain ⟨t, ht, rfl⟩ := mem_cards.mp hc
    exact ⟨t, ht, ha, phase_inHand_iff.mp hp⟩

theorem undecidedResults_iff {w : Nat} :
    (s.undecidedResults w).isEmpty = false ↔ s.board.Undecided w := by
  have e : (s.undecidedResults w).isEmpty = false ↔ ∃ n, n ∈ s.undecidedResults w := by
    cases s.undecidedResults w <;> simp
  rw [e]
  simp only [Ledger.undecidedResults, List.mem_insertionSort, List.mem_map, List.mem_filter,
    Bool.and_eq_true, beq_iff_eq]
  constructor
  · rintro ⟨n, t, ⟨ht, ⟨ha, hp⟩, hd⟩, -⟩
    refine ⟨t.card, card_mem ht, ha, phase_done_iff.mpr hp, ?_⟩
    simpa using hd
  · rintro ⟨c, hc, ha, hp, hd⟩
    obtain ⟨t, ht, rfl⟩ := mem_cards.mp hc
    refine ⟨t.number, t, ⟨ht, ⟨ha, phase_done_iff.mp hp⟩, ?_⟩, rfl⟩
    simpa using hd

theorem session_iff {p : Participant} (hp : p ∈ s.participants.rows) :
    s.board.Session p.id ↔ p.memberId.isSome = true := by
  constructor
  · rintro ⟨q, hq, e, hm⟩
    rw [Table.eq_of_key hp hq e.symm]
    exact hm
  · exact fun h => ⟨p, hp, rfl, h⟩

theorem left_iff {p : Participant} (hp : p ∈ s.participants.rows) :
    s.board.Left p.id ↔ p.leftAt.isSome = true := by
  constructor
  · rintro ⟨q, hq, e, hm⟩
    rw [Table.eq_of_key hp hq e.symm]
    exact hm
  · exact fun h => ⟨p, hp, rfl, h⟩

/-- A window takes nothing now where it is a session with a task in hand or a result undecided. -/
theorem takesNothing_iff {p : Participant} (hp : p ∈ s.participants.rows) :
    s.takesNothing p = true ↔ s.board.Session p.id ∧ s.board.Busy p.id := by
  rw [session_iff hp]
  simp only [Ledger.takesNothing, Bool.and_eq_true, Bool.or_eq_true, hasTaskInHand_iff,
    Bool.not_eq_true', undecidedResults_iff]
  rfl

end Cards

/-! ## 3. One task written -/

section Writes

variable {L : Licence} {s s' : Ledger} {t : Task} {u : Unit}

/-- A statement on one card is that card put. -/
theorem Wired.edit_eq_put {b : Board} (hw : Wired b) {c : Card} (hc : c ∈ b.cards)
    {f : Card → Card} (hf : (f c).id = c.id) : b.edit c.id f = b.put (f c) := by
  have e : (b.cards.map fun x => if x.id = c.id then f x else x) =
      b.cards.map fun x => if x.id = (f c).id then f c else x := by
    refine List.map_congr_left fun x hx => ?_
    rw [hf]
    by_cases e : x.id = c.id
    · rw [if_pos e, if_pos e, hw.unique hx hc e]
    · rw [if_neg e, if_neg e]
  unfold Board.edit Board.put
  rw [e]

/-- A move of a task is one edit, where its card may move so. -/
theorem moveTaskAs_shift {to_ : TaskState} {what : What}
    {d d' : Debt} {c : Card} (h : (moveTaskAs t to_ what).run s = .ok (u, s'))
    (hw : Wired s.board) (hc : c ∈ s.board.cards) (e : t.id = c.id)
    (sh : Shift L s.board d c d' { c with phase := to_.phase none false })
    (hq : what.Quiet) : Edits L d s.board d' s'.board := by
  have hb : s'.board = s.board.put { c with phase := to_.phase none false } := by
    rw [moveTaskAs_board h hq, e]
    exact hw.edit_eq_put hc rfl
  rw [hb]
  exact (Edit.shift hc sh rfl).once

theorem moveTask_shift {to_ : TaskState} {det : Detail} {d d' : Debt} {c : Card}
    (h : (moveTask t to_ det).run s = .ok (u, s')) (hw : Wired s.board) (hc : c ∈ s.board.cards)
    (e : t.id = c.id) (sh : Shift L s.board d c d' { c with phase := to_.phase none false })
    (hq : (What.taskState t.number t.state to_ det).Quiet) :
    Edits L d s.board d' s'.board := moveTaskAs_shift h hw hc e sh hq

/-- A statement on one task is one edit, where its card may move so. -/
theorem updateTask_shift {id : Nat} {f : Task → Task} {g : Card → Card} {d d' : Debt} {c : Card}
    (hg : ∀ r, (Keyed.rekey r.id (f r)).card = g r.card)
    (h : (updateTask id f).run s = .ok (u, s')) (hw : Wired s.board) (hc : c ∈ s.board.cards)
    (e : id = c.id) (hi : (g c).id = c.id) (sh : Shift L s.board d c d' (g c))
    (hs : (g c).stops = c.stops) : Edits L d s.board d' s'.board := by
  have hb : s'.board = s.board.put (g c) := by
    rw [updateTask_board hg h, e]
    exact hw.edit_eq_put hc hi
  rw [hb]
  exact (Edit.shift hc sh hs).once

end Writes

end ConsensFlow
